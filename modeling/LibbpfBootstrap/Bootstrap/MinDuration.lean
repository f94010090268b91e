import LibbpfBootstrap.Bootstrap.History

/-! The option `-d` of bootstrap, from the command line to the screen. `parse_arg`
accepts every positive `long`; `main` hands the handlers the product with one
million, taken in 64 bits; `handle_event` prints what comes back. The option
keeps its word exactly for the values whose product does not wrap. -/

namespace LibbpfBootstrap.Bootstrap

open Kernel Kernel.Runs Libc

/-- `struct env`; a `long` is an integer that `strtol` has clamped. -/
structure Env where
  verbose : Bool
  minDurationMs : ℤ
  deriving DecidableEq

/-- The keys `argp` calls the parser with. -/
inductive Key
  | v | d | arg | other
  deriving DecidableEq

/-- `argp_usage` does not return; it follows what was printed to `stderr`. -/
inductive Parsed
  | ok (env : Env)
  | usage (stderr : List UInt8)
  | unknown
  deriving DecidableEq

def parseArg (key : Key) (arg : List UInt8) (env : Env) : Parsed :=
  match key with
  | .v => .ok { env with verbose := true }
  | .d =>
    let (value, errno) := strtol arg
    if errno || value ≤ 0 then .usage (ascii "Invalid duration: " ++ arg ++ ascii "\n")
    else .ok { env with minDurationMs := value }
  | .arg => .usage []
  | .other => .unknown

/-- `env.min_duration_ms * 1000000ULL`, as `main` stores it. -/
def minDurationNs (env : Env) : BitVec 64 := BitVec.ofInt 64 env.minDurationMs * 1000000#64

/-- The line printed for a record; `ts` is the time of day. -/
def handleEvent (ts : List UInt8) (e : Event) : List UInt8 :=
  if e.exitEvent then
    padRight 8 ts ++ ascii " " ++ padRight 5 (ascii "EXIT") ++ ascii " " ++ padRight 16 e.comm.cstr ++
      ascii " " ++ padRight 7 (signedDecimal e.pid.toInt) ++ ascii " " ++
      padRight 7 (signedDecimal e.ppid.toInt) ++ ascii " [" ++ decimal e.exitCode.toNat ++ ascii "]" ++
      (if e.durationNs ≠ 0#64 then
        ascii " (" ++ decimal (e.durationNs.toNat / 1000000) ++ ascii "ms)" else []) ++ ascii "\n"
  else
    padRight 8 ts ++ ascii " " ++ padRight 5 (ascii "EXEC") ++ ascii " " ++ padRight 16 e.comm.cstr ++
      ascii " " ++ padRight 7 (signedDecimal e.pid.toInt) ++ ascii " " ++
      padRight 7 (signedDecimal e.ppid.toInt) ++ ascii " " ++ e.filename.cstr ++ ascii "\n"

/-- An `EXIT` line whose last column is `(n ms)`. -/
def IsTimedExit (ts line : List UInt8) (n : ℕ) : Prop :=
  ∃ body, line = padRight 8 ts ++ ascii " EXIT  " ++ body ++ ascii " (" ++ decimal n ++ ascii "ms)\n"

/-- What `-d D` promises when the handlers run with the threshold `m`. Whatever a
firing prints is the `EXIT` line of a leader whose exec was recorded, who lived
`D` milliseconds at least, and it says so. -/
def KeepsPromise (D : ℕ) (m : BitVec 64) : Prop :=
  ∀ fs, Allowed ClockOk fs → ∀ past f rest, fs = past ++ f :: rest →
    ∀ e ∈ (fire m (final (fire m) ∅ past) f).2, ∀ ts,
      ∃ x t n, f = .exit x ∧ x.leader ∧ startTime (pidOf x.pidTgid) past = some t ∧
        D * 1000000 ≤ x.ts.toNat - t.toNat ∧ D ≤ n ∧ IsTimedExit ts (handleEvent ts e) n

theorem parseArg_d {arg : List UInt8} {env env' : Env} (h : parseArg .d arg env = .ok env') :
    0 < env'.minDurationMs ∧ env'.minDurationMs ≤ longMax := by
  have hle := strtol_le arg
  simp only [parseArg] at h
  split_ifs at h with hc
  simp only [Bool.or_eq_true, decide_eq_true_eq, not_or, not_le] at hc
  obtain rfl := Parsed.ok.inj h
  exact ⟨hc.2, hle⟩

/-- The parser accepts every positive `long`. -/
theorem parseArg_decimal (D : ℕ) (env : Env) (h0 : 0 < D) (h1 : (D : ℤ) ≤ longMax) :
    parseArg .d (decimal D) env = .ok { env with minDurationMs := D } := by
  simp [parseArg, strtol_decimal D h1, h0.ne']

theorem minDurationNs_toNat (env : Env) (h : 0 ≤ env.minDurationMs) :
    (minDurationNs env).toNat = env.minDurationMs.toNat * 1000000 % 2 ^ 64 := by
  obtain ⟨n, hn⟩ := Int.eq_ofNat_of_zero_le h
  rw [minDurationNs, hn, BitVec.ofInt_natCast, ← BitVec.ofNat_mul, BitVec.toNat_ofNat, Int.toNat_natCast]

/-! ### Without wrap-around -/

theorem handleEvent_timed (ts : List UInt8) (e : Event) (hx : e.exitEvent = true)
    (hd : e.durationNs ≠ 0#64) : IsTimedExit ts (handleEvent ts e) (e.durationNs.toNat / 1000000) := by
  refine ⟨padRight 16 e.comm.cstr ++ ascii " " ++ padRight 7 (signedDecimal e.pid.toInt) ++ ascii " " ++
    padRight 7 (signedDecimal e.ppid.toInt) ++ ascii " [" ++ decimal e.exitCode.toNat ++ ascii "]", ?_⟩
  have h1 : ascii " " ++ (padRight 5 (ascii "EXIT") ++ ascii " ") = ascii " EXIT  " := by decide
  have h2 : ascii "ms)" ++ ascii "\n" = ascii "ms)\n" := by decide
  simp only [handleEvent, hx, if_true, if_pos hd, ← h1, ← h2, List.append_assoc]

/-- One firing under a threshold that is the exact product. -/
theorem fire_keepsPromise {D : ℕ} {m : BitVec 64} (hD : 0 < D) (hm : m.toNat = D * 1000000)
    {past : List Firing} {s : ExecStart} (h : Tracks past s) {f : Firing} (hc : ClockOk past f)
    {e : Event} (he : e ∈ (fire m s f).2) (ts : List UInt8) :
    ∃ x t n, f = .exit x ∧ x.leader ∧ startTime (pidOf x.pidTgid) past = some t ∧
      D * 1000000 ≤ x.ts.toNat - t.toNat ∧ D ≤ n ∧ IsTimedExit ts (handleEvent ts e) n := by
  have hm0 : m ≠ 0#64 := by
    rintro rfl
    simp at hm
    omega
  cases f with
  | exec f => exact absurd (mem_handleExec he).1 hm0
  | exit x =>
    obtain ⟨hl, e0, ⟨t, ht, hlt, rfl⟩ | ⟨-, h0, -⟩⟩ := mem_handleExit he
    · have ht : startTime (pidOf x.pidTgid) past = some t := (h _).symm.trans ht
      have hd : (x.ts - t).toNat = x.ts.toNat - t.toNat :=
        BitVec.toNat_sub_of_le (startTime_le hc ht)
      have hge : D * 1000000 ≤ x.ts.toNat - t.toNat := by
        rw [not_and, BitVec.lt_def, not_lt, hm, hd] at hlt
        exact hlt hm0
      have hne : x.ts - t ≠ 0#64 := by
        intro h0
        rw [h0] at hd
        simp at hd
        omega
      refine ⟨x, t, (x.ts.toNat - t.toNat) / 1000000, rfl, hl, ht, hge, ?_, ?_⟩
      · exact (Nat.le_div_iff_mul_le (by decide)).mpr hge
      · have := handleEvent_timed ts (x.fill (x.ts - t) e0) rfl hne
        rwa [← hd]
    · exact absurd h0 hm0

/-! ### The exact range of the option -/

/-- A process that execs at time zero and exits after as many nanoseconds as the
threshold. -/
def atThreshold (m : BitVec 64) : List Firing := [.exec (.plain 1 0), .exit (.plain 1 m)]

theorem atThreshold_clock (m : BitVec 64) : Allowed ClockOk (atThreshold m) := by
  simp [Allowed, AllowedFrom, atThreshold, ClockOk, Firing.ts, Exec.plain, Exit.plain, BitVec.le_def]

theorem le_of_keepsPromise {D : ℕ} {m : BitVec 64} (h : KeepsPromise D m) : D * 1000000 ≤ m.toNat := by
  by_cases hm : m = 0#64
  · -- the zero threshold switches the filter off, and the exec itself is printed
    obtain ⟨x, t, n, hx, -⟩ := h _ (atThreshold_clock m) [] _ [.exit (.plain 1 m)] rfl
      ((Exec.plain 1 0).fill .zero) (by simp [fire, handleExec_snd, hm, Exec.plain]) []
    cases hx
  · have hs : Tracks [.exec (.plain 1 0)] (final (fire m) ∅ [.exec (.plain 1 0)]) :=
      tracks_fire tracks_nil m _
    have hpid : pidOf (Exit.plain 1 m).pidTgid = 1 := pidOf_append 1 1
    have hstart : startTime 1 [.exec (.plain 1 0)] = some 0#64 := by decide
    have hprinted : (Exit.plain 1 m).fill m .zero ∈
        (fire m (final (fire m) ∅ [.exec (.plain 1 0)]) (.exit (.plain 1 m))).2 := by
      rw [fire, handleExit_snd _ _ _ (Exit.plain_leader 1 m), hs, hpid, hstart]
      simp [Exit.plain]
    obtain ⟨x, t, n, hx, -, ht, hle, -⟩ :=
      h _ (atThreshold_clock m) [.exec (.plain 1 0)] _ [] rfl _ hprinted []
    obtain rfl := Firing.exit.inj hx
    rw [hpid, hstart] at ht
    obtain rfl := Option.some.inj ht
    simpa [Exit.plain] using hle

/-- `-d` keeps its promise on every run exactly when the product of its value
with one million is less than `2 ^ 64`. -/
theorem keepsPromise_iff (arg : List UInt8) (env env' : Env) (h : parseArg .d arg env = .ok env') :
    KeepsPromise env'.minDurationMs.toNat (minDurationNs env') ↔
      env'.minDurationMs.toNat * 1000000 < 2 ^ 64 := by
  obtain ⟨hpos, -⟩ := parseArg_d h
  have hm := minDurationNs_toNat env' hpos.le
  have hD : 0 < env'.minDurationMs.toNat := by omega
  generalize env'.minDurationMs.toNat = D at *
  generalize minDurationNs env' = m at *
  constructor
  · intro hk
    exact (le_of_keepsPromise hk).trans_lt m.isLt
  · rintro hlt fs hfs past f rest rfl e he ts
    rw [Nat.mod_eq_of_lt hlt] at hm
    exact fire_keepsPromise hD hm (tracks_after m past) hfs.at he ts

/-- `-d 50` is in the range. -/
theorem keepsPromise_fifty : KeepsPromise 50 50000000#64 :=
  (keepsPromise_iff (ascii "50") ⟨false, 0⟩ ⟨false, 50⟩ (by decide)).mpr (by decide)

/-- `-d 288230376151711744` is accepted, its product wraps to zero, and every
exec is printed. -/
theorem keepsPromise_fails :
    parseArg .d (ascii "288230376151711744") ⟨false, 0⟩ = .ok ⟨false, 288230376151711744⟩ ∧
      ¬ KeepsPromise 288230376151711744 (minDurationNs ⟨false, 288230376151711744⟩) :=
  ⟨by decide, fun h => absurd (le_of_keepsPromise h) (by decide)⟩

end LibbpfBootstrap.Bootstrap
