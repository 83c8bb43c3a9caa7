import Mathlib.Data.List.Sort
import Libws.Lib.Word

/-!
# `ws::core::Sonyflake`

Model of `include/ws/core/Sonyflake.h` on the code's own word types.  The steady clock is the
list of the readings that it still gives, in nanoseconds; each call takes its readings from the
front, one in `nextId` and one in every test of the loop of `waitNextTick`, and is undefined if
they run out while it waits.

* `id_toNat` — the three fields of an id, for every state of a generator;
* `nextId_spec` — one call moves the pair of tick and sequence number strictly up;
* `ids_increase_and_never_collide` — every run of calls.
-/

set_option autoImplicit false

namespace Libws.Core

def startEpoch : UInt64 := 1704067200000

structure Sonyflake where
  lastTick : UInt64
  startSystime : UInt64
  machineId : UInt16
  sequence : UInt8
  startSteadyTime : Nat
  deriving DecidableEq, Repr

namespace Sonyflake

/-- The constructor, at `unixtime` milliseconds of the system clock and `steadyNow` nanoseconds
    of the steady clock. -/
def new (machineId : UInt16) (unixtime : Int) (steadyNow : Nat) : Sonyflake :=
  { lastTick := 0, startSystime := UInt64.ofInt unixtime - startEpoch, machineId := machineId,
    sequence := 0, startSteadyTime := steadyNow }

/-- Milliseconds since the custom epoch, by the steady clock. -/
def getCurrentTime (g : Sonyflake) (steadyNow : Nat) : UInt64 :=
  g.startSystime + UInt64.ofInt (((steadyNow : Int) - g.startSteadyTime).tdiv 1000000)

/-- The loop of `waitNextTick`; both ways to pass the time leave the generator as it is. -/
def waitNextTick (g : Sonyflake) (next : UInt64) : List Nat → Option (UInt64 × List Nat)
  | [] => none
  | r :: rs =>
    if (next - g.getCurrentTime r).toInt64 > 0 then g.waitNextTick next rs
    else some (g.getCurrentTime r, rs)

/-- The id assembled from the fields. -/
def id (g : Sonyflake) : UInt64 :=
  (g.lastTick <<< 24) ||| (g.machineId.toUInt64 <<< 8) ||| g.sequence.toUInt64

/-- The id, the generator afterwards and the readings left. -/
def nextId (g : Sonyflake) : List Nat → Option (UInt64 × Sonyflake × List Nat)
  | [] => none
  | r :: rs =>
    let currentTick := g.getCurrentTime r / 10
    if currentTick = g.lastTick then
      let g := { g with sequence := g.sequence + 1 }
      if g.sequence = 0 then
        match g.waitNextTick ((g.lastTick + 1) * 10) rs with
        | none => none
        | some (now, rs) =>
          let g := { g with lastTick := now / 10 }
          some (g.id, g, rs)
      else some (g.id, g, rs)
    else
      let g := { g with sequence := 0, lastTick := currentTick }
      some (g.id, g, rs)

/-- `n` calls: each id, with the generator after the call. -/
def nextIds : Nat → Sonyflake → List Nat → Option (List (UInt64 × Sonyflake))
  | 0, _, _ => some []
  | n + 1, g, rs =>
    match g.nextId rs with
    | none => none
    | some (i, g', rs') => (nextIds n g' rs').map ((i, g') :: ·)

/-! ## The fields of an id -/

theorem or_fields (t m s : Nat) (hm : m < 2 ^ 16) (hs : s < 2 ^ 8) :
    t <<< 24 ||| m <<< 8 ||| s = t * 2 ^ 24 + m * 2 ^ 8 + s := by
  have hmid : m <<< 8 < 2 ^ 24 := by rw [Nat.shiftLeft_eq]; omega
  rw [← Nat.shiftLeft_add_eq_or_of_lt hmid]
  have hsplit : t <<< 24 + m <<< 8 = (t * 2 ^ 16 + m) <<< 8 := by
    simp only [Nat.shiftLeft_eq]
    omega
  rw [hsplit, ← Nat.shiftLeft_add_eq_or_of_lt hs, Nat.shiftLeft_eq]
  omega

theorem id_toNat (g : Sonyflake) :
    g.id.toNat = g.lastTick.toNat % 2 ^ 40 * 2 ^ 24 + g.machineId.toNat * 2 ^ 8 + g.sequence.toNat := by
  have hm := g.machineId.toNat_lt
  have hs := g.sequence.toNat_lt
  rw [← or_fields _ _ _ hm hs]
  simp only [id, UInt64.toNat_or, UInt64.toNat_shiftLeft, UInt16.toNat_toUInt64, UInt8.toNat_toUInt64,
    UInt64.reduceToNat, Nat.reduceMod, Nat.shiftLeft_eq]
  congr 2
  · omega
  · omega

/-- The three fields, read back by shifting. -/
theorem id_fields (g : Sonyflake) (ht : g.lastTick.toNat < 2 ^ 39) :
    g.id >>> 63 = 0 ∧ g.id >>> 24 = g.lastTick ∧ (g.id >>> 8) % 65536 = g.machineId.toUInt64 ∧
      g.id % 256 = g.sequence.toUInt64 := by
  have hm := g.machineId.toNat_lt
  have hs := g.sequence.toNat_lt
  have hid := id_toNat g
  rw [Nat.mod_eq_of_lt (by omega)] at hid
  refine ⟨?_, ?_, ?_, ?_⟩ <;> rw [← UInt64.toNat_inj]
  · rw [UInt64.toNat_shiftRight, hid, Nat.shiftRight_eq_div_pow]
    show _ / 2 ^ 63 = 0
    omega
  · rw [UInt64.toNat_shiftRight, hid, Nat.shiftRight_eq_div_pow]
    show _ / 2 ^ 24 = _
    omega
  · rw [UInt64.toNat_mod, UInt64.toNat_shiftRight, hid, Nat.shiftRight_eq_div_pow, UInt16.toNat_toUInt64]
    show _ / 2 ^ 8 % 65536 = _
    omega
  · rw [UInt64.toNat_mod, hid, UInt8.toNat_toUInt64]
    show _ % 256 = _
    omega

/-- Different machine ids keep ids apart, whatever the other fields are. -/
theorem id_ne_of_machineId_ne {g g' : Sonyflake} (h : g.machineId ≠ g'.machineId) : g.id ≠ g'.id := by
  intro heq
  have hs := g.sequence.toNat_lt
  have hs' := g'.sequence.toNat_lt
  have hm := g.machineId.toNat_lt
  have hm' := g'.machineId.toNat_lt
  have hid := id_toNat g
  have hid' := id_toNat g'
  rw [heq] at hid
  exact h (UInt16.toNat_inj.mp (by omega))

/-- Ids are ordered as the pairs of tick and sequence number. -/
theorem id_lt_id {g g' : Sonyflake} (hm : g'.machineId = g.machineId) (ht : g'.lastTick.toNat < 2 ^ 39)
    (h : g.lastTick < g'.lastTick ∨ g.lastTick = g'.lastTick ∧ g.sequence < g'.sequence) :
    g.id < g'.id := by
  have hs := g.sequence.toNat_lt
  have hmlt := g.machineId.toNat_lt
  rw [UInt64.lt_iff_toNat_lt, id_toNat, id_toNat, hm, Nat.mod_eq_of_lt (by omega : g'.lastTick.toNat < 2 ^ 40)]
  rcases h with hlt | ⟨heq, hseq⟩
  · rw [UInt64.lt_iff_toNat_lt] at hlt
    rw [Nat.mod_eq_of_lt (by omega)]
    omega
  · rw [UInt8.lt_iff_toNat_lt] at hseq
    rw [heq, Nat.mod_eq_of_lt (by omega)]
    omega

/-! ## One call -/

/-- The tick of a clock reading. -/
def tickOf (g : Sonyflake) (r : Nat) : Nat := (g.getCurrentTime r).toNat / 10

/-- The readings to come are in order, behind the last tick, and leave room for the id. -/
structure Ready (g : Sonyflake) (rs : List Nat) : Prop where
  sorted : rs.Pairwise (· ≤ ·)
  started : ∀ r ∈ rs, g.startSteadyTime ≤ r
  bound : ∀ r ∈ rs, g.startSystime.toNat + (r - g.startSteadyTime) / 1000000 < 10 * 2 ^ 39
  behind : ∀ r ∈ rs, g.lastTick.toNat ≤ g.tickOf r
  lastTick_lt : g.lastTick.toNat < 2 ^ 39

theorem ofInt_toNat {n : Nat} (h : n < 2 ^ 64) : (UInt64.ofInt (n : Int)).toNat = n := by
  have := Word.toNat_ofInt n
  omega

theorem getCurrentTime_toNat {g : Sonyflake} {r : Nat} (hstart : g.startSteadyTime ≤ r)
    (h : g.startSystime.toNat + (r - g.startSteadyTime) / 1000000 < 10 * 2 ^ 39) :
    (g.getCurrentTime r).toNat = g.startSystime.toNat + (r - g.startSteadyTime) / 1000000 := by
  have hdiff : ((r : Int) - g.startSteadyTime).tdiv 1000000 =
      ((r - g.startSteadyTime) / 1000000 : Nat) := by
    rw [Int.tdiv_eq_ediv_of_nonneg (by omega)]
    omega
  rw [getCurrentTime, hdiff, UInt64.toNat_add, ofInt_toNat (by omega), Nat.mod_eq_of_lt (by omega)]

theorem Ready.tickOf_lt {g : Sonyflake} {rs : List Nat} (h : Ready g rs) {r : Nat} (hr : r ∈ rs) :
    g.tickOf r < 2 ^ 39 := by
  have := getCurrentTime_toNat (h.started r hr) (h.bound r hr)
  have := h.bound r hr
  unfold tickOf
  omega

theorem Ready.tickOf_le {g : Sonyflake} {r r' : Nat} {rs : List Nat} (h : Ready g (r :: rs))
    (hr : r' ∈ rs) : g.tickOf r ≤ g.tickOf r' := by
  have hle : r ≤ r' := (List.pairwise_cons.mp h.sorted).1 r' hr
  unfold tickOf
  have hmem : r ∈ r :: rs := List.mem_cons_self ..
  have hmem' : r' ∈ r :: rs := List.mem_cons_of_mem _ hr
  rw [getCurrentTime_toNat (h.started r hmem) (h.bound r hmem),
    getCurrentTime_toNat (h.started r' hmem') (h.bound r' hmem')]
  omega

/-- The test of the waiting loop, for times in range. -/
theorem remaining_pos {a b : UInt64} (ha : a.toNat < 2 ^ 63) (hb : b.toNat < 2 ^ 63) :
    (a - b).toInt64 > 0 ↔ b.toNat < a.toNat := by
  have hsub := UInt64.toNat_sub a b
  have hint : (a - b).toInt64.toInt = (a - b).toBitVec.toInt := rfl
  rw [gt_iff_lt, Int64.lt_iff_toInt_lt, hint, BitVec.toInt_eq_toNat_cond, UInt64.toNat_toBitVec, hsub]
  show (0 : Int) < _ ↔ _
  split <;> omega

/-- **Waiting** ends with a reading of the list that is not before `next`. -/
theorem waitNextTick_spec {g : Sonyflake} {next now : UInt64} (hnext : next.toNat < 2 ^ 63) :
    ∀ {rs rest : List Nat},
      (∀ r ∈ rs, (g.getCurrentTime r).toNat < 2 ^ 63) → g.waitNextTick next rs = some (now, rest) →
      ∃ pre r, rs = pre ++ r :: rest ∧ now = g.getCurrentTime r ∧ next.toNat ≤ now.toNat
  | [], _, _, h => by cases h
  | r :: rs, rest, hb, h => by
    have hr := hb r (List.mem_cons_self ..)
    have htest := remaining_pos hnext hr
    unfold waitNextTick at h
    split at h
    · obtain ⟨pre, r', hrs, hnow, hle⟩ := waitNextTick_spec hnext
        (fun r' hr' => hb r' (List.mem_cons_of_mem _ hr')) h
      exact ⟨r :: pre, r', by rw [hrs, List.cons_append], hnow, hle⟩
    · rename_i hdone
      cases h
      exact ⟨[], r, rfl, rfl, Nat.le_of_not_lt fun hlt => hdone (htest.mpr hlt)⟩

/-- The generator at the tick of the reading `r`, in front of the later readings `rest`. -/
theorem Ready.moveTo {g g' : Sonyflake} (pre : List Nat) {rest : List Nat} {r : Nat}
    (h : Ready g (pre ++ r :: rest))
    (hsys : g'.startSystime = g.startSystime) (hsteady : g'.startSteadyTime = g.startSteadyTime)
    (htick : g'.lastTick.toNat = g.tickOf r) : Ready g' rest := by
  have hsub : Ready g (r :: rest) :=
    ⟨h.sorted.sublist (List.sublist_append_right _ _),
      fun x hx => h.started x (List.mem_append_right _ hx),
      fun x hx => h.bound x (List.mem_append_right _ hx),
      fun x hx => h.behind x (List.mem_append_right _ hx), h.lastTick_lt⟩
  have htime : ∀ x, g'.tickOf x = g.tickOf x := fun x => by
    simp only [tickOf, getCurrentTime, hsys, hsteady]
  refine ⟨(List.pairwise_cons.mp hsub.sorted).2, ?_, ?_, ?_, ?_⟩
  · intro x hx
    rw [hsteady]
    exact hsub.started x (List.mem_cons_of_mem _ hx)
  · intro x hx
    rw [hsys, hsteady]
    exact hsub.bound x (List.mem_cons_of_mem _ hx)
  · intro x hx
    rw [htick, htime]
    exact hsub.tickOf_le hx
  · rw [htick]
    exact hsub.tickOf_lt (List.mem_cons_self ..)

/-- What a call never changes. -/
structure SameGenerator (g g' : Sonyflake) : Prop where
  machineId : g'.machineId = g.machineId
  startSystime : g'.startSystime = g.startSystime
  startSteadyTime : g'.startSteadyTime = g.startSteadyTime

theorem SameGenerator.trans {g g' g'' : Sonyflake} (h : SameGenerator g g') (h' : SameGenerator g' g'') :
    SameGenerator g g'' :=
  ⟨h'.machineId.trans h.machineId, h'.startSystime.trans h.startSystime,
    h'.startSteadyTime.trans h.startSteadyTime⟩

theorem SameGenerator.tickOf_eq {g g' : Sonyflake} (h : SameGenerator g g') (r : Nat) :
    g'.tickOf r = g.tickOf r := by
  simp only [tickOf, getCurrentTime, h.startSystime, h.startSteadyTime]

/-- Whatever the clock does, the id handed out is made of the fields left behind. -/
theorem nextId_id {g g' : Sonyflake} {rs rest : List Nat} {i : UInt64}
    (hrun : g.nextId rs = some (i, g', rest)) : i = g'.id ∧ SameGenerator g g' := by
  cases rs with
  | nil => cases hrun
  | cons r rs =>
    simp only [nextId] at hrun
    split at hrun
    · split at hrun
      · split at hrun
        · cases hrun
        · cases hrun
          exact ⟨rfl, rfl, rfl, rfl⟩
      · cases hrun
        exact ⟨rfl, rfl, rfl, rfl⟩
    · cases hrun
      exact ⟨rfl, rfl, rfl, rfl⟩

theorem getCurrentTime_div (g : Sonyflake) (r : Nat) : (g.getCurrentTime r / 10).toNat = g.tickOf r := by
  rw [UInt64.toNat_div]
  rfl

/-- When the sequence has wrapped, the waiting loop ends in a later tick. -/
theorem Ready.waits {g : Sonyflake} {r : Nat} {rs rest : List Nat} {now : UInt64} (h : Ready g (r :: rs))
    (hwait : ({ g with sequence := g.sequence + 1 } : Sonyflake).waitNextTick ((g.lastTick + 1) * 10) rs =
      some (now, rest)) :
    ∃ pre r', rs = pre ++ r' :: rest ∧ (now / 10).toNat = g.tickOf r' ∧ g.lastTick < now / 10 := by
  have hlast := h.lastTick_lt
  have hnext : ((g.lastTick + 1) * 10).toNat = (g.lastTick.toNat + 1) * 10 := by
    rw [UInt64.toNat_mul, UInt64.toNat_add]
    show (g.lastTick.toNat + 1) % 2 ^ 64 * 10 % 2 ^ 64 = _
    omega
  have hrange : ∀ x ∈ rs, (g.getCurrentTime x).toNat < 2 ^ 63 := fun x hx => by
    have hmem : x ∈ r :: rs := List.mem_cons_of_mem _ hx
    have hbound := h.bound x hmem
    rw [getCurrentTime_toNat (h.started x hmem) hbound]
    omega
  obtain ⟨pre, r', hrs, hnow, hle⟩ := waitNextTick_spec
    (g := { g with sequence := g.sequence + 1 }) (by rw [hnext]; omega) hrange hwait
  refine ⟨pre, r', hrs, ?_, ?_⟩
  · rw [hnow]
    exact g.getCurrentTime_div r'
  · rw [hnext] at hle
    rw [UInt64.lt_iff_toNat_lt, UInt64.toNat_div]
    show _ < now.toNat / 10
    omega

/-- **One call.**  The tick is that of a reading taken, and the pair of tick and sequence number
moves strictly up; what is left of the clock is in front of the new tick. -/
theorem nextId_spec {g g' : Sonyflake} {rs rest : List Nat} {i : UInt64} (h : Ready g rs)
    (hrun : g.nextId rs = some (i, g', rest)) :
    Ready g' rest ∧ (∃ pre r, rs = pre ++ r :: rest ∧ g'.lastTick.toNat = g.tickOf r) ∧
      (g.lastTick < g'.lastTick ∨ g.lastTick = g'.lastTick ∧ g.sequence < g'.sequence) := by
  cases rs with
  | nil => cases hrun
  | cons r rs =>
    have htick := g.getCurrentTime_div r
    simp only [nextId] at hrun
    split at hrun
    · rename_i hsame
      rw [hsame] at htick
      split at hrun
      · -- the sequence wrapped
        split at hrun
        · cases hrun
        rename_i now rest' hwait
        cases hrun
        obtain ⟨pre, r', hrs, hnow, hlt⟩ := h.waits hwait
        exact ⟨Ready.moveTo (g := g) (r :: pre) (by rw [List.cons_append, ← hrs]; exact h) rfl rfl hnow,
          ⟨r :: pre, r', by rw [hrs, List.cons_append], hnow⟩, Or.inl hlt⟩
      · rename_i hnowrap
        cases hrun
        refine ⟨Ready.moveTo [] h rfl rfl htick, ⟨[], r, rfl, htick⟩, Or.inr ⟨rfl, ?_⟩⟩
        have hseq := g.sequence.toNat_lt
        have hne : (g.sequence + 1).toNat ≠ 0 := fun h0 => hnowrap (UInt8.toNat_inj.mp h0)
        have hadd : (g.sequence + 1).toNat = (g.sequence.toNat + 1) % 2 ^ 8 := UInt8.toNat_add ..
        rw [UInt8.lt_iff_toNat_lt]
        show _ < (g.sequence + 1).toNat
        omega
    · rename_i hother
      cases hrun
      refine ⟨Ready.moveTo [] h rfl rfl htick, ⟨[], r, rfl, htick⟩, Or.inl ?_⟩
      have hbehind := h.behind r (List.mem_cons_self ..)
      have hne : g.lastTick.toNat ≠ g.tickOf r := fun heq =>
        hother (UInt64.toNat_inj.mp (by rw [htick, heq]))
      rw [UInt64.lt_iff_toNat_lt]
      show _ < (g.getCurrentTime r / 10).toNat
      omega

/-! ## Runs of calls -/

/-- An id of a run that began with the generator `g` on the readings `rs`. -/
structure Issued (g : Sonyflake) (rs : List Nat) (p : UInt64 × Sonyflake) : Prop where
  id_eq : p.1 = p.2.id
  same : SameGenerator g p.2
  tick : ∃ r ∈ rs, p.2.lastTick.toNat = g.tickOf r
  tick_lt : p.2.lastTick.toNat < 2 ^ 39

/-- Every id of a run is behind the generator's last one, and they are in strict order. -/
theorem nextIds_spec : ∀ (n : Nat) (g : Sonyflake) (rs : List Nat) (out : List (UInt64 × Sonyflake)),
    Ready g rs → nextIds n g rs = some out →
    (∀ p ∈ out, g.id < p.1) ∧ (out.map (·.1)).Pairwise (· < ·) ∧ ∀ p ∈ out, Issued g rs p
  | 0, _, _, _, _, h => by
    simp only [nextIds, Option.some.injEq] at h
    subst h
    simp
  | n + 1, g, rs, out, hready, h => by
    simp only [nextIds] at h
    split at h
    · cases h
    rename_i i g' rest hnext
    obtain ⟨out', hout', rfl⟩ := Option.map_eq_some_iff.mp h
    obtain ⟨hready', ⟨pre, r, hrs, htick⟩, hup⟩ := nextId_spec hready hnext
    obtain ⟨rfl, hsame⟩ := nextId_id hnext
    have hlt : g.id < g'.id := id_lt_id hsame.machineId hready'.lastTick_lt hup
    obtain ⟨hgt, hsorted, hissued⟩ := nextIds_spec n g' rest out' hready' hout'
    have hr : r ∈ rs := by rw [hrs]; simp
    refine ⟨?_, ?_, ?_⟩
    · intro p hp
      rcases List.mem_cons.mp hp with rfl | hp
      · exact hlt
      · exact UInt64.lt_trans hlt (hgt p hp)
    · rw [List.map_cons, List.pairwise_cons]
      refine ⟨fun j hj => ?_, hsorted⟩
      obtain ⟨p, hp, rfl⟩ := List.mem_map.mp hj
      exact hgt p hp
    · intro p hp
      rcases List.mem_cons.mp hp with rfl | hp
      · exact ⟨rfl, hsame, ⟨r, hr, htick⟩, hready'.lastTick_lt⟩
      · obtain ⟨hid, hsame', ⟨x, hx, hxt⟩, htlt⟩ := hissued p hp
        refine ⟨hid, hsame.trans hsame', ⟨x, ?_, by rw [hxt, hsame.tickOf_eq]⟩, htlt⟩
        rw [hrs]
        simp [hx]

/-- Whatever the clock does, a run hands out ids of its own machine only. -/
theorem nextIds_machineId : ∀ (n : Nat) (g : Sonyflake) (rs : List Nat) (out : List (UInt64 × Sonyflake)),
    nextIds n g rs = some out → ∀ p ∈ out, p.1 = p.2.id ∧ p.2.machineId = g.machineId
  | 0, _, _, _, h => by
    simp only [nextIds, Option.some.injEq] at h
    subst h
    simp
  | n + 1, g, rs, out, h => by
    simp only [nextIds] at h
    split at h
    · cases h
    rename_i i g' rest hnext
    obtain ⟨out', hout', rfl⟩ := Option.map_eq_some_iff.mp h
    obtain ⟨rfl, hsame⟩ := nextId_id hnext
    intro p hp
    rcases List.mem_cons.mp hp with rfl | hp
    · exact ⟨rfl, hsame.machineId⟩
    · obtain ⟨hid, hm⟩ := nextIds_machineId n g' rest out' hout' p hp
      exact ⟨hid, hm.trans hsame.machineId⟩

/-- A clock as it has to be: the system clock is not before the epoch, the steady clock never goes
    back, and every tick of ten milliseconds that it can show is below `2 ^ 39`. -/
structure ClockOK (unixtime : Int) (steadyNow : Nat) (readings : List Nat) : Prop where
  epoch_le : 1704067200000 ≤ unixtime
  sorted : (steadyNow :: readings).Pairwise (· ≤ ·)
  tick_lt : ∀ r ∈ readings, (unixtime - 1704067200000 + (r - steadyNow : Nat) / 1000000) / 10 < 2 ^ 39

theorem new_startSystime (machineId : UInt16) {unixtime : Int} (steadyNow : Nat)
    (hle : 1704067200000 ≤ unixtime) (hlt : unixtime < 2 ^ 63) :
    ((new machineId unixtime steadyNow).startSystime.toNat : Int) = unixtime - 1704067200000 := by
  obtain ⟨u, rfl⟩ : ∃ u : Nat, unixtime = u := ⟨unixtime.toNat, by omega⟩
  have hof : (UInt64.ofInt (u : Int)).toNat = u := ofInt_toNat (by omega)
  have hsub : (new machineId u steadyNow).startSystime.toNat =
      (2 ^ 64 - 1704067200000 + u) % 2 ^ 64 := by
    show (UInt64.ofInt (u : Int) - startEpoch).toNat = _
    rw [UInt64.toNat_sub, hof]
    rfl
  rw [hsub]
  omega

theorem new_ready (machineId : UInt16) {unixtime : Int} {steadyNow : Nat} {readings : List Nat}
    (h : ClockOK unixtime steadyNow readings) : Ready (new machineId unixtime steadyNow) readings := by
  obtain ⟨hstart, hsorted⟩ := List.pairwise_cons.mp h.sorted
  refine ⟨hsorted, hstart, ?_, fun r _ => Nat.zero_le _, (by decide : (0 : UInt64).toNat < 2 ^ 39)⟩
  intro r hr
  have hle := h.epoch_le
  have htick := h.tick_lt r hr
  have hsys := new_startSystime machineId steadyNow hle (by omega)
  show (new machineId unixtime steadyNow).startSystime.toNat + (r - steadyNow) / 1000000 < _
  omega

/-- **Ids grow and never collide.**  The ids of one generator come in strict order, with the top
bit `0` and the tick of a clock reading, the machine id and the sequence number as their fields;
generators with different machine ids share no id, whatever their clocks show. -/
theorem ids_increase_and_never_collide :
    (∀ (machineId : UInt16) (unixtime : Int) (steadyNow : Nat) (readings : List Nat) (n : Nat)
        (out : List (UInt64 × Sonyflake)), ClockOK unixtime steadyNow readings →
        nextIds n (new machineId unixtime steadyNow) readings = some out →
        (out.map (·.1)).Pairwise (· < ·) ∧
        ∀ p ∈ out, p.1 >>> 63 = 0 ∧ p.1 >>> 24 = p.2.lastTick ∧
          (p.1 >>> 8) % 65536 = machineId.toUInt64 ∧ p.1 % 256 = p.2.sequence.toUInt64 ∧
          ∃ r ∈ readings, ((p.1 >>> 24).toNat : Int) =
            (unixtime - 1704067200000 + (r - steadyNow : Nat) / 1000000) / 10) ∧
      ∀ (m₁ m₂ : UInt16) (u₁ u₂ : Int) (s₁ s₂ : Nat) (rs₁ rs₂ : List Nat) (n₁ n₂ : Nat)
        (out₁ out₂ : List (UInt64 × Sonyflake)), m₁ ≠ m₂ →
        nextIds n₁ (new m₁ u₁ s₁) rs₁ = some out₁ → nextIds n₂ (new m₂ u₂ s₂) rs₂ = some out₂ →
        ∀ p ∈ out₁, ∀ q ∈ out₂, p.1 ≠ q.1 := by
  refine ⟨?_, ?_⟩
  · intro machineId unixtime steadyNow readings n out hclock hrun
    have hready := new_ready machineId hclock
    obtain ⟨-, hsorted, hissued⟩ := nextIds_spec n _ readings out hready hrun
    refine ⟨hsorted, fun p hp => ?_⟩
    obtain ⟨hid, hsame, ⟨r, hr, htick⟩, htlt⟩ := hissued p hp
    obtain ⟨htop, hfield, hmachine, hseq⟩ := id_fields p.2 htlt
    rw [← hid] at htop hfield hmachine hseq
    refine ⟨htop, hfield, by rw [hmachine, hsame.machineId]; rfl, hseq, r, hr, ?_⟩
    have hle := hclock.epoch_le
    have hbound := hclock.tick_lt r hr
    have hsys := new_startSystime machineId steadyNow hle (by omega)
    have htime := getCurrentTime_toNat (hready.started r hr) (hready.bound r hr)
    have hsteady : (new machineId unixtime steadyNow).startSteadyTime = steadyNow := rfl
    rw [hsteady] at htime
    rw [hfield, htick, tickOf, htime]
    omega
  · intro m₁ m₂ u₁ u₂ s₁ s₂ rs₁ rs₂ n₁ n₂ out₁ out₂ hne h₁ h₂ p hp q hq heq
    obtain ⟨hp₁, hm₁⟩ := nextIds_machineId n₁ _ rs₁ out₁ h₁ p hp
    obtain ⟨hq₁, hm₂⟩ := nextIds_machineId n₂ _ rs₂ out₂ h₂ q hq
    have hids : p.2.id = q.2.id := by rw [← hp₁, ← hq₁, heq]
    refine id_ne_of_machineId_ne ?_ hids
    rw [hm₁, hm₂]
    exact hne

/-- Two machines that read their clocks alike: both stay in order, and they share no id. -/
theorem ids_increase_and_never_collide_two_machines : ∃ out₇ out₈ : List (UInt64 × Sonyflake),
    nextIds 3 (new 7 1704067200005 0) [1000000, 2000000, 9000000] = some out₇ ∧
      nextIds 3 (new 8 1704067200005 0) [1000000, 2000000, 9000000] = some out₈ ∧
      out₇.map (·.1) = [1793, 1794, 16779008] ∧ (out₇.map (·.1)).Pairwise (· < ·) ∧
      ∀ p ∈ out₇, ∀ q ∈ out₈, p.1 ≠ q.1 := by
  have hclock : ClockOK 1704067200005 0 [1000000, 2000000, 9000000] :=
    ⟨by decide, by decide, by decide⟩
  have h₇ : nextIds 3 (new 7 1704067200005 0) [1000000, 2000000, 9000000] =
      some [(1793, ⟨0, 5, 7, 1, 0⟩), (1794, ⟨0, 5, 7, 2, 0⟩), (16779008, ⟨1, 5, 7, 0, 0⟩)] := by decide
  have h₈ : nextIds 3 (new 8 1704067200005 0) [1000000, 2000000, 9000000] =
      some [(2049, ⟨0, 5, 8, 1, 0⟩), (2050, ⟨0, 5, 8, 2, 0⟩), (16779264, ⟨1, 5, 8, 0, 0⟩)] := by decide
  exact ⟨_, _, h₇, h₈, rfl, (ids_increase_and_never_collide.1 7 _ _ _ 3 _ hclock h₇).1,
    ids_increase_and_never_collide.2 7 8 _ _ _ _ _ _ 3 3 _ _ (by decide) h₇ h₈⟩

end Sonyflake

end Libws.Core
