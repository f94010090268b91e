import LibbpfBootstrap.Kernel.Runs
import Mathlib.Data.Finmap
import Mathlib.Data.List.DropRight

/-! Hash maps of the kernel that refuse new keys. An update of a present key
always succeeds; an update of an absent key succeeds when the kernel admits it,
which it does not when the map is full, and a refused update changes nothing.
What such a map holds under a key is a function of the history of the key
alone: the latest value put since the last removal, provided some put since
then was admitted. -/

namespace LibbpfBootstrap.Kernel

/-- Contents of a hash map. -/
abbrev BpfMap (K V : Type*) := Finmap (fun _ : K => V)

namespace BpfMap

variable {K V : Type*} [DecidableEq K]

/-- An update with `BPF_ANY`; `admitted` is the kernel's answer for an absent key. -/
def updateElem (admitted : Bool) (k : K) (v : V) (m : BpfMap K V) : BpfMap K V :=
  if k ∈ m ∨ admitted then m.insert k v else m

/-- A map of `maxEntries` entries that is not full has room for a new key. -/
def hasRoom (maxEntries : ℕ) (m : BpfMap K V) : Bool := decide (m.keys.card < maxEntries)

theorem lookup_updateElem_self (admitted : Bool) (k : K) (v : V) (m : BpfMap K V) :
    (m.updateElem admitted k v).lookup k =
      if (m.lookup k).isSome || admitted then some v else none := by
  unfold updateElem
  by_cases hk : k ∈ m
  · have := Finmap.lookup_isSome.mpr hk
    simp [hk, this]
  · have := Finmap.lookup_eq_none.mpr hk
    cases admitted <;> simp [hk, this]

theorem lookup_updateElem_ne {admitted : Bool} {k k' : K} {v : V} {m : BpfMap K V} (h : k' ≠ k) :
    (m.updateElem admitted k v).lookup k' = m.lookup k' := by
  unfold updateElem
  split_ifs
  · exact Finmap.lookup_insert_of_ne m h
  · rfl

theorem keys_insert (k : K) (v : V) (m : BpfMap K V) : (Finmap.insert k v m).keys = insert k m.keys := by
  ext k'
  simp [Finmap.mem_keys, Finmap.mem_insert]

/-- Removing an absent key changes nothing. -/
theorem erase_of_notMem {k : K} {m : BpfMap K V} (h : k ∉ m) : m.erase k = m := by
  refine Finmap.ext_lookup fun k' => ?_
  by_cases hk : k' = k
  · subst hk
    rw [Finmap.lookup_erase, Finmap.lookup_eq_none.mpr h]
  · exact Finmap.lookup_erase_ne hk

end BpfMap

/-! ### The history of one key -/

section Remembered

variable {A V : Type*} (put? : A → Option (V × Bool)) (del? : A → Bool)

/-- The puts of a history since its last removal, oldest first. -/
def window (history : List A) : List (V × Bool) :=
  (history.rtakeWhile (fun a => !del? a)).filterMap put?

/-- The latest value put since the last removal, provided one of the puts since
then was admitted. -/
def remembered (history : List A) : Option V :=
  if (window put? del? history).any (·.2) then (window put? del? history).getLast?.map (·.1) else none

@[simp] theorem remembered_nil : remembered put? del? [] = none := by
  simp [remembered, window]

variable {put? del?}

theorem window_concat_del (history : List A) {a : A} (ha : del? a = true) :
    window put? del? (history ++ [a]) = [] := by
  simp [window, ha]

theorem window_concat_keep (history : List A) {a : A} (ha : del? a = false) (hp : put? a = none) :
    window put? del? (history ++ [a]) = window put? del? history := by
  simp [window, ha, hp]

theorem window_concat_put (history : List A) {a : A} {p : V × Bool} (ha : del? a = false) (hp : put? a = some p) :
    window put? del? (history ++ [a]) = window put? del? history ++ [p] := by
  simp [window, ha, hp]

theorem isSome_remembered (history : List A) :
    (remembered put? del? history).isSome = (window put? del? history).any (·.2) := by
  unfold remembered
  split_ifs with h
  · have hne : window put? del? history ≠ [] := by
      rintro he
      simp [he] at h
    simp [h, List.getLast?_isSome.mpr hne]
  · simp [h]

theorem remembered_concat_del (history : List A) {a : A} (ha : del? a = true) :
    remembered put? del? (history ++ [a]) = none := by
  simp [remembered, window_concat_del history ha]

theorem remembered_concat_keep (history : List A) {a : A} (ha : del? a = false) (hp : put? a = none) :
    remembered put? del? (history ++ [a]) = remembered put? del? history := by
  simp only [remembered, window_concat_keep history ha hp]

/-- Once a put of the window was admitted every later one is: an update of a
present key succeeds. -/
theorem remembered_concat_put (history : List A) {a : A} {v : V} {admitted : Bool} (ha : del? a = false)
    (hp : put? a = some (v, admitted)) :
    remembered put? del? (history ++ [a]) =
      if (remembered put? del? history).isSome || admitted then some v else none := by
  rw [isSome_remembered]
  unfold remembered
  rw [window_concat_put history ha hp, List.any_append, List.getLast?_concat, List.any_cons, List.any_nil,
    Bool.or_false]
  rfl

/-- A key that is held is held with the latest value put, so it was put. -/
theorem remembered_of_isSome {history : List A} (h : (remembered put? del? history).isSome = true) :
    remembered put? del? history = (window put? del? history).getLast?.map (·.1) :=
  if_pos ((isSome_remembered history).symm.trans h)

theorem window_ne_nil_of_isSome {history : List A} (h : (remembered put? del? history).isSome = true) :
    window put? del? history ≠ [] := by
  intro hw
  rw [isSome_remembered, hw] at h
  cases h

/-- What is remembered was put at some point, with neither a put nor a removal
of the key since. -/
theorem remembered_split {history : List A} {v : V} (h : remembered put? del? history = some v) :
    ∃ before a after admitted, history = before ++ a :: after ∧ del? a = false ∧
      put? a = some (v, admitted) ∧ ∀ b ∈ after, put? b = none ∧ del? b = false := by
  induction history using List.reverseRecOn with
  | nil => simp at h
  | append_singleton history a ih =>
    cases hd : del? a with
    | true => simp [remembered_concat_del history hd] at h
    | false =>
      cases hp : put? a with
      | none =>
        rw [remembered_concat_keep history hd hp] at h
        obtain ⟨before, b, after, admitted, rfl, hb, hv, hafter⟩ := ih h
        refine ⟨before, b, after ++ [a], admitted, by simp, hb, hv, fun c hc => ?_⟩
        rcases List.mem_append.mp hc with hc | hc
        · exact hafter c hc
        · rw [List.mem_singleton.mp hc]
          exact ⟨hp, hd⟩
      | some p =>
        obtain ⟨w, admitted⟩ := p
        rw [remembered_concat_put history hd hp] at h
        have hw : w = v := by
          split_ifs at h
          exact Option.some.inj h
        exact ⟨history, a, [], admitted, rfl, hd, hw ▸ hp, by simp⟩

theorem remembered_eq_none (h : ∀ a, put? a = none) (history : List A) : remembered put? del? history = none := by
  cases hr : remembered put? del? history with
  | none => rfl
  | some v =>
    obtain ⟨_, a, _, _, -, -, hp, -⟩ := remembered_split hr
    rw [h a] at hp
    cases hp

/-- Only what puts or removes the key matters. -/
theorem remembered_filter {keep : A → Bool} (h : ∀ a, keep a = false → put? a = none ∧ del? a = false)
    (history : List A) : remembered put? del? (history.filter keep) = remembered put? del? history := by
  induction history using List.reverseRecOn with
  | nil => rfl
  | append_singleton history a ih =>
    rw [List.filter_append]
    cases hk : keep a with
    | false =>
      obtain ⟨hp, hd⟩ := h a hk
      rw [List.filter_cons_of_neg (by simp [hk]), List.filter_nil, List.append_nil, ih, remembered_concat_keep history hd hp]
    | true =>
      rw [List.filter_cons_of_pos hk, List.filter_nil]
      cases hd : del? a with
      | true => rw [remembered_concat_del _ hd, remembered_concat_del _ hd]
      | false =>
        cases hp : put? a with
        | none => rw [remembered_concat_keep _ hd hp, remembered_concat_keep _ hd hp, ih]
        | some p =>
          obtain ⟨v, admitted⟩ := p
          rw [remembered_concat_put _ hd hp, remembered_concat_put _ hd hp, ih]

/-- A function of the values can be applied as they are put. -/
theorem map_remembered {W : Type*} (g : V → W) (history : List A) :
    (remembered put? del? history).map g = remembered (fun a => (put? a).map (Prod.map g id)) del? history := by
  have hwindow : window (fun a => (put? a).map (Prod.map g id)) del? history =
      (window put? del? history).map (Prod.map g id) := by
    rw [window, window, List.map_filterMap]
  unfold remembered
  rw [hwindow, List.any_map, List.getLast?_map]
  split_ifs with h₁ h₂ h₂
  · rw [Option.map_map, Option.map_map]
    rfl
  · exact absurd h₁ h₂
  · exact absurd h₂ h₁
  · rfl

/-! ### A map that follows its history

Each key has its own puts and removals, and the map holds for every key what its
history leaves; an action that concerns one key then keeps it so. -/

section Follows

variable {K : Type*} [DecidableEq K] {puts : K → A → Option (V × Bool)} {dels : K → A → Bool}
  {history : List A} {m : BpfMap K V} {a : A} {k : K}

theorem follows_updateElem (h : ∀ k', m.lookup k' = remembered (puts k') (dels k') history)
    (hdel : ∀ k', dels k' a = false) {v : V} {admitted : Bool} (hput : puts k a = some (v, admitted))
    (hother : ∀ k', k' ≠ k → puts k' a = none) (k' : K) :
    (m.updateElem admitted k v).lookup k' = remembered (puts k') (dels k') (history ++ [a]) := by
  by_cases hk : k' = k
  · subst hk
    rw [BpfMap.lookup_updateElem_self, h, remembered_concat_put history (hdel k') hput]
  · rw [BpfMap.lookup_updateElem_ne hk, h, remembered_concat_keep history (hdel k') (hother k' hk)]

theorem follows_erase (h : ∀ k', m.lookup k' = remembered (puts k') (dels k') history)
    (hdel : dels k a = true) (hother : ∀ k', k' ≠ k → dels k' a = false) (hput : ∀ k', puts k' a = none) (k' : K) :
    (m.erase k).lookup k' = remembered (puts k') (dels k') (history ++ [a]) := by
  by_cases hk : k' = k
  · subst hk
    rw [Finmap.lookup_erase, remembered_concat_del history hdel]
  · rw [Finmap.lookup_erase_ne hk, h, remembered_concat_keep history (hother k' hk) (hput k')]

/-! The map may hold a function of the values that its history has. -/

variable {W : Type*} {g : V → W} {n : BpfMap K W}

theorem follows_updateElem_map (h : ∀ k', n.lookup k' = (remembered (puts k') (dels k') history).map g)
    (hdel : ∀ k', dels k' a = false) {v : V} {admitted : Bool} (hput : puts k a = some (v, admitted))
    (hother : ∀ k', k' ≠ k → puts k' a = none) (k' : K) :
    (n.updateElem admitted k (g v)).lookup k' = (remembered (puts k') (dels k') (history ++ [a])).map g := by
  rw [map_remembered]
  refine follows_updateElem (fun k' => (h k').trans (map_remembered g history)) hdel ?_ (fun k' hk => ?_) k'
  · rw [hput]
    rfl
  · rw [hother k' hk]
    rfl

theorem follows_erase_map (h : ∀ k', n.lookup k' = (remembered (puts k') (dels k') history).map g)
    (hdel : dels k a = true) (hother : ∀ k', k' ≠ k → dels k' a = false) (hput : ∀ k', puts k' a = none) (k' : K) :
    (n.erase k).lookup k' = (remembered (puts k') (dels k') (history ++ [a])).map g := by
  rw [map_remembered]
  refine follows_erase (fun k' => (h k').trans (map_remembered g history)) hdel hother (fun k' => ?_) k'
  rw [hput k']
  rfl

end Follows

/-! ### Calls

When a put opens a call that the next removal closes, and no call is opened
inside another one, what the map holds is the open call, if it was admitted. -/

variable (put? del?)

/-- The put of the call that is open after a history. -/
def openCall (history : List A) : Option (V × Bool) :=
  remembered (fun a => (put? a).map (fun p => (p, true))) del? history

/-- What is kept of an open call. -/
def stored : Option (V × Bool) → Option V
  | some (v, true) => some v
  | _ => none

variable {put? del?}

theorem remembered_eq_stored {history : List A}
    (h : Runs.Allowed (fun past a => put? a ≠ none → openCall put? del? past = none) history) :
    remembered put? del? history = stored (openCall put? del? history) := by
  induction history using List.reverseRecOn with
  | nil => rfl
  | append_singleton past a ih =>
    obtain ⟨hpast, ha⟩ := (Runs.allowed_concat _ past a).mp h
    unfold openCall
    cases hd : del? a with
    | true => rw [remembered_concat_del past hd, remembered_concat_del past hd]; rfl
    | false =>
      cases hp : put? a with
      | none => rw [remembered_concat_keep past hd hp, remembered_concat_keep past hd (by rw [hp]; rfl), ih hpast]; rfl
      | some p =>
        obtain ⟨v, admitted⟩ := p
        have hnone : openCall put? del? past = none := ha (by simp [hp])
        rw [remembered_concat_put past hd hp, remembered_concat_put past hd (by rw [hp]; rfl), ih hpast, hnone]
        cases admitted <;> simp [stored]

end Remembered

end LibbpfBootstrap.Kernel
