import LibbpfBootstrap.Kernel.SlotRing
import LibbpfBootstrap.Sockfilter.Ring

/-! The filter program on many processors. Several frames are handled at once: the
runs of the program write to their records in turns, while user space takes records
that are complete and so makes room for new ones. The records that the callback gets
are those of the runs taken one after the other, in the order of their reservations. -/

namespace LibbpfBootstrap.Sockfilter.Interleaved

open Kernel Kernel.Runs

/-- The stores to a reserved record, in the order of the program. The two addresses are
stored in one branch. -/
def stores (skb : Skb) : List (SoEvent → SoEvent) :=
  [skb.storeProto, skb.storeAddrs, CharBuf.poke 8 (skb.loadBytes skb.portsOff 4),
    CharBuf.poke 16 (leBytes 4 skb.pktType.toNat), CharBuf.poke 20 (leBytes 4 skb.ifindex.toNat)]

/-- Where a processor stands in the program. -/
inductive Pc
  | idle
  | entered (skb : Skb)
  | writing (slot : ℕ) (todo : List (SoEvent → SoEvent))

/-- The reservation of a processor, with what is still to be stored. -/
def Pc.holding : Pc → Option (ℕ × List (SoEvent → SoEvent))
  | .writing slot todo => some (slot, todo)
  | _ => none

structure Moved where
  rb : SlotRing 24
  pc : Pc
  took : Option Arrival

/-- The next statement of a run of the program. A reservation needs room, and may fail
without a reason that the program can see. -/
def advance (granted : Option RingBuf.Header) (rb : SlotRing 24) : Pc → Moved
  | .idle => ⟨rb, .idle, none⟩
  | .entered skb =>
    if ntohs (le16 (skb.loadBytes 12 2)) ≠ ethPIp then ⟨rb, .idle, some ⟨skb, none⟩⟩
    else if ipIsFragment skb ethHlen ≠ 0#16 then ⟨rb, .idle, some ⟨skb, none⟩⟩
    else
      match granted with
      | none => ⟨rb, .idle, some ⟨skb, none⟩⟩
      | some header =>
        if rb.hasRoom slots then ⟨rb.reserve, .writing rb.log.next (stores skb), some ⟨skb, some header⟩⟩
        else ⟨rb, .idle, some ⟨skb, none⟩⟩
  | .writing slot (w :: todo) => ⟨rb.write slots slot w, .writing slot todo, none⟩
  | .writing slot [] => ⟨rb.commit slot, .idle, none⟩

structure State (C : Type*) where
  rb : SlotRing 24
  pc : C → Pc

/-- A frame arrives at an idle processor, a processor executes its next statement, or
user space looks at its next record. -/
inductive Action (C : Type*)
  | enter (c : C) (skb : Skb)
  | run (c : C) (granted : Option RingBuf.Header)
  | take

inductive Effect
  | took (a : Arrival)
  | handled (e : SoEvent)

def Effect.took? : Effect → Option Arrival
  | .took a => some a
  | .handled _ => none

def Effect.handled? : Effect → Option SoEvent
  | .took _ => none
  | .handled e => some e

section Run

variable {C : Type*} [DecidableEq C]

def step (st : State C) : Action C → State C × List Effect
  | .enter c skb =>
    match st.pc c with
    | .idle => ({ st with pc := Function.update st.pc c (.entered skb) }, [])
    | _ => (st, [])
  | .run c granted =>
    let v := advance granted st.rb (st.pc c)
    (⟨v.rb, Function.update st.pc c v.pc⟩, v.took.toList.map .took)
  | .take => ({ st with rb := (st.rb.take slots).1 }, (st.rb.take slots).2.map .handled)

def start : State C := ⟨.empty, fun _ => .idle⟩

def after (as : List (Action C)) : State C := final step start as

/-- The frames with the outcome of their reservations, in this order. -/
def order (as : List (Action C)) : List Arrival := (outputs step start as).filterMap Effect.took?

/-- The records that `handle_event` was called with. -/
def handled (as : List (Action C)) : List SoEvent := (outputs step start as).filterMap Effect.handled?

/-! ### One statement -/

/-- All that a statement can do. -/
inductive Outcome (rb : SlotRing 24) (pc : Pc) : Moved → Prop
  | quiet (hpc : pc = .idle) : Outcome rb pc ⟨rb, .idle, none⟩
  | ignored (a : Arrival) (hsub : ¬ a.Submits) (hpc : pc.holding = none) : Outcome rb pc ⟨rb, .idle, some a⟩
  | reserved (a : Arrival) (hsub : a.Submits) (hroom : rb.hasRoom slots = true) (hpc : pc.holding = none) :
      Outcome rb pc ⟨rb.reserve, .writing rb.log.next (stores a.skb), some a⟩
  | wrote (i : ℕ) (w : SoEvent → SoEvent) (ws : List (SoEvent → SoEvent)) (hpc : pc = .writing i (w :: ws)) :
      Outcome rb pc ⟨rb.write slots i w, .writing i ws, none⟩
  | committed (i : ℕ) (hpc : pc = .writing i []) : Outcome rb pc ⟨rb.commit i, .idle, none⟩

theorem advance_outcome (granted : Option RingBuf.Header) (rb : SlotRing 24) (pc : Pc) :
    Outcome rb pc (advance granted rb pc) := by
  have hnone : ∀ skb, ¬ (Arrival.mk skb none).Submits := fun skb h => by simp [Arrival.Submits] at h
  cases pc with
  | idle => exact .quiet rfl
  | entered skb =>
    simp only [advance]
    by_cases h1 : ntohs (le16 (skb.loadBytes 12 2)) ≠ ethPIp
    · rw [if_pos h1]
      exact .ignored _ (hnone skb) rfl
    by_cases h2 : ipIsFragment skb ethHlen ≠ 0#16
    · rw [if_neg h1, if_pos h2]
      exact .ignored _ (hnone skb) rfl
    rw [if_neg h1, if_neg h2]
    cases granted with
    | none => exact .ignored _ (hnone skb) rfl
    | some header =>
      cases hroom : rb.hasRoom slots with
      | true => exact .reserved ⟨skb, some header⟩ ⟨⟨not_not.mp h1, not_not.mp h2⟩, rfl⟩ hroom rfl
      | false => exact .ignored _ (hnone skb) rfl
  | writing i todo =>
    cases todo with
    | nil => exact .committed i rfl
    | cons w ws => exact .wrote i w ws rfl

/-! ### Runs -/

/-- The ring keeps the records of the sequential runs; what a reservation has still to
write is with the processor that made it. -/
structure Inv (order : List Arrival) (handled : List SoEvent) (owner : ℕ → Option C)
    (todo : ℕ → List (SoEvent → SoEvent)) (st : State C) : Prop where
  keeps : st.rb.Keeps slots (records order) handled todo
  held : SlotRing.Held (fun c => (st.pc c).holding) owner todo st.rb.log

theorem holding_update (pc : C → Pc) (c : C) (pc' : Pc) :
    (fun c' => (Function.update pc c pc' c').holding) = Function.update (fun c' => (pc c').holding) c pc'.holding := by
  funext c'
  by_cases hcc : c' = c
  · rw [hcc, Function.update_self, Function.update_self]
  · rw [Function.update_of_ne hcc, Function.update_of_ne hcc]

/-- A processor without a reservation goes on without one. -/
theorem holding_update_none {pc : C → Pc} {c : C} {pc' : Pc} (hc : (pc c).holding = none) (hpc' : pc'.holding = none) :
    (fun c' => (Function.update pc c pc' c').holding) = fun c' => (pc c').holding := by
  rw [holding_update, hpc', ← hc]
  exact Function.update_eq_self c _

omit [DecidableEq C] in
theorem inv_start : Inv [] [] (fun _ => none) (fun _ => []) (start : State C) where
  keeps := SlotRing.keeps_empty slots _
  held := ⟨fun _ _ _ h => by simp [start, Pc.holding] at h, fun i h => by simp [start, SlotRing.empty, CommitLog.empty] at h⟩

theorem records_of_not_submits {a : Arrival} (h : ¬ a.Submits) (order : List Arrival) :
    records (order ++ [a]) = records order := by
  rw [records_concat, record, if_neg h]

/-- A statement keeps the invariant, for the arrivals with the one it decides. -/
theorem inv_run {order : List Arrival} {handled : List SoEvent} {owner : ℕ → Option C}
    {todo : ℕ → List (SoEvent → SoEvent)} {st : State C} (h : Inv order handled owner todo st) (c : C)
    (granted : Option RingBuf.Header) :
    ∃ owner' todo', Inv (order ++ (advance granted st.rb (st.pc c)).took.toList) handled owner' todo'
      (step st (.run c granted)).1 := by
  have ho := advance_outcome granted st.rb (st.pc c)
  simp only [step]
  generalize hv : advance granted st.rb (st.pc c) = v at ho
  cases ho with
  | quiet hpc =>
    refine ⟨owner, todo, by simpa using h.keeps, ?_⟩
    rw [holding_update_none (by rw [hpc]; rfl) rfl]
    exact h.held
  | ignored a hsub hpc =>
    refine ⟨owner, todo, ?_, ?_⟩
    · rw [Option.toList_some, records_of_not_submits hsub]
      exact h.keeps
    · rw [holding_update_none hpc rfl]
      exact h.held
  | reserved a hsub hroom hpc =>
    refine ⟨Function.update owner st.rb.log.next (some c), Function.update todo st.rb.log.next (stores a.skb), ?_, ?_⟩
    · rw [Option.toList_some, records_concat, record, if_pos hsub]
      exact h.keeps.reserve hroom (stores a.skb)
    · rw [holding_update]
      exact h.held.acquire hpc (stores a.skb)
  | wrote i w ws hpc =>
    have hc : (st.pc c).holding = some (i, w :: ws) := by rw [hpc]; rfl
    obtain ⟨hopen, -, htodo⟩ := h.held.held c i _ hc
    refine ⟨owner, Function.update todo i ws, ?_, ?_⟩
    · simpa using h.keeps.write hopen htodo
    · rw [holding_update]
      exact h.held.progress hc ws
  | committed i hpc =>
    have hc : (st.pc c).holding = some (i, []) := by rw [hpc]; rfl
    obtain ⟨-, -, htodo⟩ := h.held.held c i _ hc
    refine ⟨owner, todo, ?_, ?_⟩
    · simpa using h.keeps.commit htodo
    · rw [holding_update]
      exact h.held.release hc

theorem filterMap_took (a : Option Arrival) :
    (a.toList.map Effect.took).filterMap Effect.took? = a.toList ∧
      (a.toList.map Effect.took).filterMap Effect.handled? = [] := by
  cases a <;> exact ⟨rfl, rfl⟩

theorem filterMap_handled (es : List SoEvent) :
    (es.map Effect.handled).filterMap Effect.took? = [] ∧
      (es.map Effect.handled).filterMap Effect.handled? = es := by
  induction es with
  | nil => exact ⟨rfl, rfl⟩
  | cons e es ih => exact ⟨ih.1, congrArg (e :: ·) ih.2⟩

theorem inv_of_run (as : List (Action C)) : ∃ owner todo, Inv (order as) (handled as) owner todo (after as) := by
  induction as using List.reverseRecOn with
  | nil => exact ⟨_, _, inv_start⟩
  | append_singleton as a ih =>
    obtain ⟨owner, todo, h⟩ := ih
    have horder : order (as ++ [a]) = order as ++ (step (after as) a).2.filterMap Effect.took? := by
      rw [order, outputs_concat, List.filterMap_append]
      rfl
    have hhandled : handled (as ++ [a]) = handled as ++ (step (after as) a).2.filterMap Effect.handled? := by
      rw [handled, outputs_concat, List.filterMap_append]
      rfl
    have hafter : after (as ++ [a]) = (step (after as) a).1 := final_concat step start as a
    rw [horder, hhandled, hafter]
    cases a with
    | enter c skb =>
      refine ⟨owner, todo, ?_⟩
      cases hpc : (after as).pc c with
      | idle =>
        simp only [step, hpc, List.filterMap_nil, List.append_nil]
        refine ⟨h.keeps, ?_⟩
        rw [holding_update_none (by rw [hpc]; rfl) rfl]
        exact h.held
      | _ =>
        simp only [step, hpc, List.filterMap_nil, List.append_nil]
        exact h
    | run c granted =>
      have hrun := inv_run h c granted
      simp only [step, (filterMap_took _).1, (filterMap_took _).2, List.append_nil] at hrun ⊢
      exact hrun
    | take =>
      refine ⟨owner, todo, ?_⟩
      simp only [step, (filterMap_handled _).1, (filterMap_handled _).2, List.append_nil]
      exact ⟨h.keeps.take, h.held.congr (CommitLog.take_slots _)⟩

end Run

/-! ### The sequential runs -/

theorem submitted_record (arrivals : List Arrival) : (submitted arrivals).map Submission.record = records arrivals := by
  induction arrivals using List.reverseRecOn with
  | nil => rfl
  | append_singleton past a ih =>
    have hout := arrive_after past a
    rw [submitted, outputs_concat, List.map_append, records_concat, record]
    rw [submitted] at ih
    rw [Sockfilter.after] at hout
    rw [ih, hout]
    split_ifs
    · rfl
    · rw [List.map_nil, List.append_nil]

section Results

variable {C : Type*} [DecidableEq C]

/-- No run of the program is under way. -/
def Idle (st : State C) : Prop := ∀ c, st.pc c = .idle

theorem order_takes (as : List (Action C)) (n : ℕ) : order (as ++ List.replicate n .take) = order as := by
  have htakes : ∀ st : State C, ∀ a ∈ List.replicate n Action.take, (step st a).2.filterMap Effect.took? = [] := by
    intro st a ha
    rw [List.eq_of_mem_replicate ha]
    exact (filterMap_handled _).1
  rw [order, outputs_append, List.filterMap_append, filterMap_outputs_eq_nil htakes, List.append_nil]
  rfl

omit [DecidableEq C] in
theorem Inv.filled {order : List Arrival} {handled : List SoEvent} {owner : ℕ → Option C}
    {todo : ℕ → List (SoEvent → SoEvent)} {st : State C} (h : Inv order handled owner todo st) (hidle : Idle st) :
    none ∉ st.rb.log.slots := by
  intro hmem
  obtain ⟨i, hi⟩ := List.mem_iff_getElem?.mp hmem
  obtain ⟨c, -, hc⟩ := h.held.owned i hi
  simp [hidle c, Pc.holding] at hc

/-- Every run of the program on many processors refines the runs one after the other, on
the ring of bytes: the callback gets the first of the records that they submit, in the
order of the reservations, and all of them once no run is under way and user space has
looked often enough. -/
theorem handled_refines_submitted (as : List (Action C)) :
    handled as <+: (submitted (order as)).map Submission.record ∧
      (Idle (after as) → ∀ n, (submitted (order as)).length ≤ n →
        handled (as ++ List.replicate n .take) = (submitted (order as)).map Submission.record) := by
  obtain ⟨owner, todo, h⟩ := inv_of_run as
  have hlen : (submitted (order as)).length = (records (order as)).length := by
    rw [← submitted_record, List.length_map]
  rw [submitted_record, hlen]
  refine ⟨h.keeps.prefix_promised, fun hidle n hn => ?_⟩
  obtain ⟨owner', todo', h'⟩ := inv_of_run (as ++ List.replicate n .take)
  have hkeeps := h'.keeps
  rw [order_takes] at hkeeps
  have hread := CommitLog.read_iterate_take (h.filled hidle) (h.keeps.length.symm ▸ h.keeps.read) n
  have hlog : (after (as ++ List.replicate n .take)).rb.log = (fun l => l.take.1)^[n] (after as).rb.log := by
    rw [after, final_append]
    exact view_replicate (fun st : State C => st.rb.log) (fun _ => rfl) n _
  refine hkeeps.eq_of_drained ?_
  rw [hlog, hread, h.keeps.length]
  omega

/-! ### The protocol field -/

theorem mem_records {arrivals : List Arrival} {e : SoEvent} (he : e ∈ records arrivals) :
    ∃ a ∈ arrivals, a.Submits ∧ ∃ found : SoEvent, found.protoRest = [0, 0, 0] ∧ e = a.skb.fill found := by
  induction arrivals using List.reverseRecOn with
  | nil => exact absurd he List.not_mem_nil
  | append_singleton past a ih =>
    rw [records_concat, record] at he
    split_ifs at he with hsub
    · rcases List.mem_append.mp he with he | he
      · obtain ⟨b, hb, hrest⟩ := ih he
        exact ⟨b, List.mem_append_left _ hb, hrest⟩
      · exact ⟨a, by simp, hsub, _, protoRest_foundAfter past, List.mem_singleton.mp he⟩
    · obtain ⟨b, hb, hrest⟩ := ih he
      exact ⟨b, List.mem_append_left _ hb, hrest⟩

/-- Every record that the callback ever gets carries, in the whole of `ip_proto`, the
protocol byte of the frame it was filled from, however the runs of the program were
interleaved and however often the ring went around. -/
theorem handled_protoExact (as : List (Action C)) (e : SoEvent) (he : e ∈ handled as) :
    ∃ a ∈ order as, ∃ found, a.Submits ∧ e = a.skb.fill found ∧ ProtoExact ⟨a.skb, found, e⟩ := by
  obtain ⟨owner, todo, h⟩ := inv_of_run as
  obtain ⟨a, ha, hsub, found, hrest, rfl⟩ := mem_records (h.keeps.prefix_promised.subset he)
  exact ⟨a, ha, found, hsub, rfl, protoExact_fill a.skb hrest⟩

end Results

/-- A UDP frame and a GRE frame on two processors that store in turns; the second commits
first. -/
def inTurns : List (Action Bool) :=
  [.enter true (ipv4Frame 17 [1, 2, 3, 4]), .enter false (ipv4Frame 47 [5, 6, 7, 8]), .run true (some fun _ => 0),
    .run false (some fun _ => 0)] ++ (List.replicate 6 [.run false none, .run true none]).flatten ++ [.take, .take]

theorem inTurns_handled :
    handled inTurns =
      [(ipv4Frame 17 [1, 2, 3, 4]).fill fun _ => 0, (ipv4Frame 47 [5, 6, 7, 8]).fill fun _ => 0] := rfl

theorem handled_protoExact_inTurns :
    ∃ a ∈ order inTurns, ∃ found, a.Submits ∧ (ipv4Frame 47 [5, 6, 7, 8]).fill (fun _ => 0) = a.skb.fill found ∧
      ProtoExact ⟨a.skb, found, (ipv4Frame 47 [5, 6, 7, 8]).fill fun _ => 0⟩ :=
  handled_protoExact inTurns _ (by rw [inTurns_handled]; simp)

end LibbpfBootstrap.Sockfilter.Interleaved
