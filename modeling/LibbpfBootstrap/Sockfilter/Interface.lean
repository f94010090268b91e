import LibbpfBootstrap.Sockfilter.Independence

/-! The interface that `sockfilter` watches. The option `-i` names it, `open_raw_sock`
looks up its index and binds the socket to the index. For a name that no interface has
the lookup returns zero, and a socket bound to zero gets the frames of every interface. -/

namespace LibbpfBootstrap.Sockfilter

open Kernel Libc

/-! ### The command line -/

structure Env where
  interface : List UInt8

/-- The keys `argp` calls the parser with; `other` are those at the end of the arguments and such. -/
inductive Key
  | i | arg | other

/-- `argp_usage` does not return. -/
inductive Parsed
  | ok (env : Env)
  | usage
  | unknown

def parseArg (key : Key) (arg : List UInt8) (_ : Env) : Parsed :=
  match key with
  | .i => .ok ⟨arg⟩
  | .arg => .usage
  | .other => .unknown

/-- `argp_parse`: nothing if the program ends with it. A key of its own that the parser does
not know is passed over. -/
def argpParse : List (Key × List UInt8) → Env → Option Env
  | [], env => some env
  | (key, arg) :: opts, env =>
    match parseArg key arg env with
    | .ok env => argpParse opts env
    | .usage => none
    | .unknown => argpParse opts env

/-- The interface that is asked for: the last one that is named, or `lo`. -/
def asked (opts : List (Key × List UInt8)) : List UInt8 :=
  (opts.filterMap fun | (.i, arg) => some arg | _ => none).getLastD (ascii "lo")

/-! ### The socket -/

/-- The interfaces of a machine. No interface has the index zero. -/
structure Host where
  ifNametoindex : List UInt8 → BitVec 32
  ifIndextoname : BitVec 32 → Option (List UInt8)
  named : ∀ i name, ifIndextoname i = some name ↔ i ≠ 0#32 ∧ ifNametoindex name = i

/-- A raw socket, by the index that it is bound to. -/
structure RawSock where
  ifindex : BitVec 32

/-- `open_raw_sock`, with what it writes to `stderr`. `socket` and `bind` succeed or not,
`bind` with a reason; the socket of a failed `bind` is closed. -/
def openRawSock (host : Host) (name : List UInt8) (socket : Bool) (bind : Option (List UInt8)) :
    Option RawSock × List UInt8 :=
  if socket = false then (none, ascii "Failed to create raw socket\n")
  else
    match bind with
    | some reason => (none, ascii "Failed to bind to " ++ name ++ ascii ": " ++ reason ++ ascii "\n")
    | none => (some ⟨host.ifNametoindex name⟩, [])

/-- The frames that the kernel hands to the socket. -/
def RawSock.Gets (s : RawSock) (skb : Skb) : Prop := s.ifindex = 0#32 ∨ skb.ifindex = s.ifindex

instance (s : RawSock) (skb : Skb) : Decidable (s.Gets skb) := inferInstanceAs (Decidable (_ ∨ _))

/-- What is printed when frames arrive at the program. -/
def printedAll (host : Host) (arrivals : List Arrival) : List (List UInt8) :=
  (submitted arrivals).filterMap fun s => handleEvent host.ifIndextoname s.record

/-- The frames on an interface of a name. -/
def onInterface (host : Host) (name : List UInt8) (arrivals : List Arrival) : List Arrival :=
  arrivals.filter fun a => host.ifIndextoname a.skb.ifindex = some name

/-- The program shows the frames of one interface, and those alone. -/
def Watches (host : Host) (name : List UInt8) (s : RawSock) : Prop :=
  ∀ arrivals, printedAll host (arrivals.filter fun a => s.Gets a.skb) = printedAll host (onInterface host name arrivals)

/-! ### What is watched -/

theorem argpParse_interface (opts : List (Key × List UInt8)) {env env' : Env} (h : argpParse opts env = some env') :
    env'.interface = (opts.filterMap fun | (.i, arg) => some arg | _ => none).getLastD env.interface := by
  induction opts generalizing env with
  | nil => exact congrArg Env.interface (Option.some.inj h).symm
  | cons opt opts ih =>
    obtain ⟨key, arg⟩ := opt
    cases key with
    | i =>
      rw [List.filterMap_cons, List.getLastD_cons]
      exact ih h
    | arg => cases h
    | other => exact ih h

/-- A bound socket gets the frames of its interface. -/
theorem gets_iff {host : Host} {name : List UInt8} (h : host.ifNametoindex name ≠ 0#32) (skb : Skb) :
    RawSock.Gets ⟨host.ifNametoindex name⟩ skb ↔ host.ifIndextoname skb.ifindex = some name := by
  rw [host.named, RawSock.Gets]
  constructor
  · rintro (h0 | hi)
    · exact absurd h0 h
    · rw [hi]
      exact ⟨h, rfl⟩
  · rintro ⟨-, hi⟩
    exact Or.inr hi.symm

theorem printedAll_eq_nil {host : Host} (h : ∀ i, host.ifIndextoname i = none) (arrivals : List Arrival) :
    printedAll host arrivals = [] := by
  refine List.filterMap_eq_nil_iff.mpr fun s _ => ?_
  unfold handleEvent
  rw [h]
  split_ifs
  · rfl
  · rfl
  · rfl

/-- A frame for this host on a given interface. -/
def frameOn (i : BitVec 32) : Skb := { ipv4Frame 17 [1, 2, 3, 4] with ifindex := i }

/-- It is printed where the interface has a name. -/
theorem printedAll_frameOn {host : Host} {i : BitVec 32} {name : List UInt8} (h : host.ifIndextoname i = some name) :
    printedAll host [⟨frameOn i, some fun _ => 0⟩] ≠ [] := by
  have hwanted : (frameOn i).Wanted := (by decide : (ipv4Frame 17 [1, 2, 3, 4]).Wanted)
  have hsub : submitted [⟨frameOn i, some fun _ => 0⟩] =
      [⟨frameOn i, foundAfter [], (frameOn i).fill (foundAfter [])⟩] := by
    show (arrive (after []) ⟨frameOn i, some fun _ => 0⟩).2 ++ [] = _
    rw [arrive_after, if_pos ⟨hwanted, rfl⟩, List.append_nil]
  have hline := handleEvent_fill host.ifIndextoname (frameOn i) (protoRest_foundAfter [])
  rw [if_pos (show (frameOn i).pktType = packetHost from rfl), show (frameOn i).ifindex = i from rfl, h,
    Option.map_some] at hline
  rw [printedAll, hsub, List.filterMap_cons, hline]
  exact List.cons_ne_nil _ _

/-- `sockfilter` watches the interface that is asked for exactly if there is one of that
name. Otherwise it watches them all, unless there is nothing to watch. -/
theorem watches_iff (host : Host) (opts : List (Key × List UInt8)) (env : Env) (socket : Bool)
    (bind : Option (List UInt8)) (s : RawSock) (henv : argpParse opts ⟨ascii "lo"⟩ = some env)
    (hs : (openRawSock host env.interface socket bind).1 = some s) :
    Watches host (asked opts) s ↔
      host.ifNametoindex (asked opts) ≠ 0#32 ∨ ∀ i, host.ifIndextoname i = none := by
  have hname : env.interface = asked opts := argpParse_interface opts henv
  obtain rfl : s = ⟨host.ifNametoindex (asked opts)⟩ := by
    rw [← hname]
    unfold openRawSock at hs
    split_ifs at hs
    cases bind with
    | some reason => cases hs
    | none => exact (Option.some.inj hs).symm
  constructor
  · intro hw
    by_contra hnot
    obtain ⟨hzero, i, hi⟩ : host.ifNametoindex (asked opts) = 0#32 ∧ ∃ i, host.ifIndextoname i ≠ none := by
      simpa only [not_or, not_not, not_forall] using hnot
    obtain ⟨name, hi⟩ := Option.ne_none_iff_exists'.mp hi
    have hother : host.ifIndextoname i ≠ some (asked opts) := fun hc => by
      obtain ⟨hne, hidx⟩ := (host.named _ _).mp hc
      exact hne (hidx.symm.trans hzero)
    let frame : Arrival := ⟨frameOn i, some fun _ => 0⟩
    have hgot : [frame].filter (fun a => RawSock.Gets ⟨host.ifNametoindex (asked opts)⟩ a.skb) = [frame] := by
      simp [RawSock.Gets, hzero]
    have hwanted : onInterface host (asked opts) [frame] = [] := by
      simp [onInterface, frame, frameOn, hother]
    have hline := hw [frame]
    rw [hgot, hwanted] at hline
    exact printedAll_frameOn hi hline
  · rintro (hne | hnone) arrivals
    · have hsame : (fun a : Arrival => decide (RawSock.Gets ⟨host.ifNametoindex (asked opts)⟩ a.skb)) =
          fun a => decide (host.ifIndextoname a.skb.ifindex = some (asked opts)) := by
        funext a
        exact decide_eq_decide.mpr (gets_iff hne a.skb)
      rw [hsame]
      rfl
    · rw [printedAll_eq_nil hnone, printedAll_eq_nil hnone]

/-- A machine that has the interface `lo` alone. -/
def Host.lo : Host where
  ifNametoindex name := if name = ascii "lo" then 1#32 else 0#32
  ifIndextoname i := if i = 1#32 then some (ascii "lo") else none
  named i name := by
    by_cases hi : i = 1#32
    · subst hi
      by_cases hn : name = ascii "lo"
      · simp [hn]
      · simp [hn, Ne.symm hn]
    · by_cases hn : name = ascii "lo"
      · simp [hi, hn, Ne.symm hi]
      · simp only [if_neg hi, if_neg hn]
        refine iff_of_false (fun h => nomatch h) ?_
        rintro ⟨hne, rfl⟩
        exact hne rfl

/-- With a name that is misspelt it shows what it was not asked for. -/
theorem watches_iff_misspelt :
    argpParse [(.i, ascii "l0")] ⟨ascii "lo"⟩ = some ⟨ascii "l0"⟩ ∧
      (openRawSock Host.lo (ascii "l0") true none).1 = some ⟨0#32⟩ ∧ ¬ Watches Host.lo (ascii "l0") ⟨0#32⟩ := by
  refine ⟨rfl, rfl, fun hw => ?_⟩
  rcases (watches_iff Host.lo [(.i, ascii "l0")] ⟨ascii "l0"⟩ true none ⟨0#32⟩ rfl rfl).mp hw with hne | hnone
  · exact hne (by decide)
  · exact absurd (hnone 1#32) (by decide)

end LibbpfBootstrap.Sockfilter
