import LibbpfBootstrap.Libc.Text
import LibbpfBootstrap.Rust.Utf8
import LibbpfBootstrap.Tracecon.Answers

/-! A name on its way to the screen. `getaddrinfo_enter` reads it into a zeroed
buffer, the maps and the event carry the whole buffer, and `handle_event` of
`main.rs` turns the whole buffer into text. The text is the name and the NULs
behind it: every byte of the buffer is shown. -/

namespace LibbpfBootstrap.Tracecon

open Kernel Kernel.Runs Libc Rust

/-- The bytes of `struct event`, as the probe submits them. -/
def Event.bytes (e : Event) : List UInt8 :=
  (match e.tag with | .ip => 0 | .hostname => 1) :: List.ofFn e.ip ++ List.ofFn e.hostname

/-- `size_of::<Event>()`. -/
def eventSize : ℕ := 89

/-- The callback: what it prints. It takes the event from the first bytes of a sample
and panics when there are too few. -/
def handleEvent (data : List UInt8) : Option (List UInt8) :=
  if data.length < eventSize then none
  else
    match data.headD 0 with
    | 0 => some (ascii "ip event: " ++ dotted ((data.drop 1).take 4) ++ ascii "\n")
    | 1 => some (ascii "host event: " ++ fromUtf8Lossy ((data.drop 5).take 84) ++ ascii "\n")
    | _ => some []

/-- A name from the call of `getaddrinfo` that passes it to the connection that finds
it: any firings before the connection returns, and any padding behind the sample. -/
structure Trip where
  targetPid : BitVec 32
  past : List Firing
  enter : GetaddrinfoEnter
  connect : TcpV4ConnectExit
  name : List UInt8
  padding : List UInt8
  entered : Firing.getaddrinfoEnter enter ∈ past
  passed : ∀ n, enter.mem.strAt n enter.hostname = name.take n
  readable : enter.mem.strReadable hostnameLen enter.hostname = true
  ascii : ∀ b ∈ name, b < 0x80
  observed : getTid targetPid connect.pidTgid ≠ 0#32
  connected : connect.ret = 0#32
  found : ∃ sk, (after targetPid past).sockets.lookup (getTid targetPid connect.pidTgid) = some sk ∧
    (after targetPid past).hostnames.lookup (connect.skcDaddr sk) = some enter.lookup

namespace Trip

variable (t : Trip)

/-- What is printed when the connection returns. -/
def screen : List (Option (List UInt8)) :=
  (fire t.targetPid (after t.targetPid t.past) (.tcpV4ConnectExit t.connect)).2.map fun e =>
    handleEvent (e.bytes ++ t.padding)

/-- The name arrives as it is, cut to the bytes that a string of the buffer can have. -/
def Survives : Prop := t.screen = [some (Libc.ascii "host event: " ++ t.name.take 83 ++ Libc.ascii "\n")]

end Trip

/-! ### The stages -/

/-- The buffer of a lookup is the name and zeros up to its end. -/
theorem ofFn_lookup {f : GetaddrinfoEnter} {name : List UInt8} (hread : f.mem.strReadable hostnameLen f.hostname = true)
    (hname : f.mem.strAt hostnameLen f.hostname = name.take hostnameLen) :
    List.ofFn f.lookup.c = name.take 83 ++ List.replicate (84 - (name.take 83).length) 0 := by
  have hlen : (name.take 83).length ≤ 83 := List.length_take_le _ _
  have hput : f.lookup.c = CharBuf.putStr (name.take hostnameLen) (fun _ => 0) := by
    rw [GetaddrinfoEnter.lookup, UserMemory.probeReadUserStr, if_pos hread, hname]
  have htake : (name.take hostnameLen).take (hostnameLen - 1) = name.take 83 := by
    rw [List.take_take]
    rfl
  rw [hput, CharBuf.ofFn_putStr (by decide), htake, List.ofFn_const, List.drop_replicate,
    show 84 - (name.take 83).length = 84 - ((name.take 83).length + 1) + 1 by omega, List.replicate_succ]

/-- The callback prints the whole buffer of a host event. -/
theorem handleEvent_bytes (c : CharBuf hostnameLen) (ip : CharBuf 4) (padding : List UInt8) :
    handleEvent (Event.bytes ⟨.hostname, ip, c⟩ ++ padding) =
      some (ascii "host event: " ++ fromUtf8Lossy (List.ofFn c) ++ ascii "\n") := by
  have hip : (List.ofFn ip).length = 4 := List.length_ofFn
  have hc : (List.ofFn c).length = 84 := List.length_ofFn
  have hlen : ¬ (Event.bytes ⟨.hostname, ip, c⟩ ++ padding).length < eventSize := by
    simp only [Event.bytes, eventSize, List.length_append, List.length_cons, hip, hc]
    omega
  have hhost : ((Event.bytes ⟨.hostname, ip, c⟩ ++ padding).drop 5).take 84 = List.ofFn c := by
    have hdrop : (Event.bytes ⟨.hostname, ip, c⟩ ++ padding).drop 5 = List.ofFn c ++ padding := by
      rw [Event.bytes, List.append_assoc, List.cons_append, List.drop_succ_cons, List.drop_left' hip]
    rw [hdrop, List.take_left' hc]
  rw [handleEvent, if_neg hlen, hhost]
  rfl

theorem Trip.screen_eq (t : Trip) :
    t.screen = [some (Libc.ascii "host event: " ++
      (t.name.take 83 ++ List.replicate (84 - (t.name.take 83).length) 0) ++ Libc.ascii "\n")] := by
  obtain ⟨sk, hsk, hlookup⟩ := t.found
  have hev : (fire t.targetPid (after t.targetPid t.past) (.tcpV4ConnectExit t.connect)).2 =
      [⟨.hostname, fun _ => 0, t.enter.lookup.c⟩] := by
    rw [fire, tcpV4ConnectExit_events t.connect t.observed, if_pos t.connected, hsk]
    simp only [hlookup, report]
  have hascii : ∀ b ∈ List.ofFn t.enter.lookup.c, b < 0x80 := by
    rw [ofFn_lookup t.readable (t.passed hostnameLen)]
    intro b hb
    rcases List.mem_append.mp hb with hb | hb
    · exact t.ascii b (List.mem_of_mem_take hb)
    · rw [List.eq_of_mem_replicate hb]
      decide
  rw [Trip.screen, hev, List.map_singleton, handleEvent_bytes, fromUtf8Lossy_of_ascii hascii,
    ofFn_lookup t.readable (t.passed hostnameLen)]

/-- The NULs behind the name make the line longer than it should be. -/
theorem Trip.screen_ne (t : Trip) :
    t.screen ≠ [some (Libc.ascii "host event: " ++ t.name.take 83 ++ Libc.ascii "\n")] := by
  rw [t.screen_eq]
  intro h
  have hlen := congrArg (fun l : List (Option (List UInt8)) => (l.map fun o => (o.getD []).length)) h
  have hle : (t.name.take 83).length ≤ 83 := List.length_take_le _ _
  simp only [List.map_singleton, Option.getD_some, List.length_append, List.length_replicate, List.cons.injEq,
    and_true] at hlen
  omega

/-- No name survives the trip. -/
theorem Trip.not_survives (t : Trip) : ¬ t.Survives := t.screen_ne

/-- The name `ab`, looked up by thread 2 and found by the connection of thread 3. -/
def Trip.ab : Trip where
  targetPid := 0
  past := interleaved.take 4
  enter := ⟨2, resolved [97, 98] 2 0x0100007f, 0x100#64, 0x1000#64, true⟩
  connect := ⟨3, 0#32, fun _ => 0x0100007f⟩
  name := [97, 98]
  padding := [0, 0, 0]
  entered := by simp [interleaved]
  passed n := by
    match n with
    | 0 => rfl
    | 1 => decide
    | 2 => decide
    | n + 3 => rfl
  readable := UserMemory.strReadable_of_no_faults (fun _ => rfl) _ _
  ascii := by simp
  observed := by decide
  connected := rfl
  found := ⟨0x80#64, by decide, by decide⟩

/-- The screen shows `ab` and eighty-two NULs. -/
theorem Trip.ab_not_survives :
    Trip.ab.screen = [some (Libc.ascii "host event: ab" ++ List.replicate 82 0 ++ Libc.ascii "\n")] ∧
      ¬ Trip.ab.Survives :=
  ⟨Trip.ab.screen_eq.trans rfl, Trip.ab.screen_ne⟩

end LibbpfBootstrap.Tracecon
