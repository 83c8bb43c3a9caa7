import Libws.Core.RingBufferQueue

/-!
# Strings through a `RingBuffer`

Strings are written with their length in front, and read back one by one.  The calls as an
operation machine (`StringCall`, `stringStep`), and the same calls on a queue of strings
(`queueStep`).

* `readStringPrefixed_spec` — a string at the front of the buffer is read back, unless it is
  empty and more stands behind it: for the length 0 `readData` reads everything;
* `readStringPrefixed_overflow` — then it copies out of the bounds of the string;
* `strings_round_trip` — which runs give all strings back.
-/

set_option autoImplicit false

namespace Libws.Core.RingBuffer

open Libws.Machine Libws.Word

/-- The bytes that `operator<<` writes for a string. -/
def stringBytes (val : List UInt8) : List UInt8 := leBytes 2 (val.length % 2 ^ 16) ++ val

/-- The bytes of all strings. -/
def stringsBytes (q : List (List UInt8)) : List UInt8 := q.flatMap stringBytes

variable {rb : RingBuffer} {q : List UInt8}

theorem stringBytes_length (val : List UInt8) : (stringBytes val).length = 2 + val.length := by
  rw [stringBytes, List.length_append, leBytes_length]

theorem operatorShlString_spec (fresh : Nat → UInt8) (h : Holds rb q) (val : List UInt8)
    (hsize : q.length + (stringBytes val).length < 2 ^ 62) :
    ∃ rb', rb.operatorShlString fresh val = some rb' ∧ Holds rb' (q ++ stringBytes val) := by
  rw [stringBytes_length] at hsize
  have hlen : (leBytes 2 (val.length % 2 ^ 16)).length = 2 := leBytes_length 2 _
  obtain ⟨rb₁, hprefix, h₁⟩ := writeData_spec fresh h (some (leBytes 2 (val.length % 2 ^ 16)))
    (by rw [Option.getD_some, hlen]; omega)
  obtain ⟨rb', hdata, h'⟩ := writeData_spec fresh h₁ (some val)
    (by rw [List.length_append, Option.getD_some, Option.getD_some, hlen]; omega)
  refine ⟨rb', ?_, ?_⟩
  · simp only [operatorShlString, hprefix, hdata, Option.bind_eq_bind, Option.bind_some]
  · rw [stringBytes, ← List.append_assoc]
    exact h'

/-- Reading the bytes at the front. -/
theorem readData_front {xs rest : List UInt8} (h : Holds rb (xs ++ rest)) (hne : xs ≠ [] ∨ rest = []) :
    ∃ rb', rb.readData (some (List.replicate xs.length 0)) xs.length = some (rb', some xs, xs.length) ∧
      Holds rb' rest := by
  have hlen : readLength (xs ++ rest) xs.length = xs.length := by
    unfold readLength
    split
    · rename_i hzero
      rcases hne with hne | rfl
      · exact absurd (List.length_eq_zero_iff.mp hzero) hne
      · rw [List.append_nil]
    · rw [List.length_append]
      omega
  have hroom : readLength (xs ++ rest) xs.length ≤ (List.replicate xs.length (0 : UInt8)).length :=
    Nat.le_of_eq (hlen.trans List.length_replicate.symm)
  obtain ⟨rb', hread, h'⟩ := readData_spec h hroom
  rw [hlen, List.take_left] at hread
  rw [hlen, List.drop_left] at h'
  have hall : Block.overwrite (List.replicate xs.length 0) xs = xs := by
    rw [Block.overwrite, List.drop_of_length_le (Nat.le_of_eq List.length_replicate), List.append_nil]
  rw [hall] at hread
  exact ⟨rb', hread, h'⟩

theorem readNumber_front {xs rest : List UInt8} (h : Holds rb (xs ++ rest)) (hne : xs ≠ []) :
    ∃ rb', rb.readNumber xs.length = some (rb', xs) ∧ Holds rb' rest := by
  obtain ⟨rb', hread, h'⟩ := readData_front h (Or.inl hne)
  exact ⟨rb', by rw [readNumber, hread]; rfl, h'⟩

theorem readString_front {xs rest : List UInt8} (h : Holds rb (xs ++ rest)) (hne : xs ≠ [] ∨ rest = []) :
    ∃ rb', rb.readString xs.length = some (rb', xs) ∧ Holds rb' rest := by
  obtain ⟨rb', hread, h'⟩ := readData_front h hne
  refine ⟨rb', ?_, h'⟩
  simp only [readString, hread, Option.map_some, Option.getD_some, List.take_length, Nat.sub_self, List.replicate_zero,
    List.append_nil]

/-- The prefix of the string at the front. -/
theorem readPrefix {val rest : List UInt8} (h : Holds rb (stringBytes val ++ rest)) (hval : val.length ≤ 65535) :
    ∃ rb' len, rb.readNumber 2 = some (rb', len) ∧ leNat len = val.length ∧ Holds rb' (val ++ rest) := by
  have hmod : val.length % 2 ^ 16 = val.length := Nat.mod_eq_of_lt (by omega)
  have hlen : (leBytes 2 val.length).length = 2 := leBytes_length 2 _
  rw [stringBytes, hmod, List.append_assoc] at h
  obtain ⟨rb', hread, h'⟩ := readNumber_front h (List.ne_nil_of_length_pos (by omega))
  rw [hlen] at hread
  exact ⟨rb', _, hread, leNat_leBytes 2 _ (by omega), h'⟩

/-- **A string at the front of the buffer is read back.** -/
theorem readStringPrefixed_spec {val rest : List UInt8} (h : Holds rb (stringBytes val ++ rest))
    (hval : val.length ≤ 65535) (hlast : val = [] → rest = []) :
    ∃ rb', rb.readStringPrefixed = some (rb', val) ∧ Holds rb' rest := by
  obtain ⟨rb₁, len, hprefix, hlen, h₁⟩ := readPrefix h hval
  have hne : val ≠ [] ∨ rest = [] := by
    by_cases hval : val = []
    · exact Or.inr (hlast hval)
    · exact Or.inl hval
  obtain ⟨rb', hdata, h'⟩ := readString_front h₁ hne
  refine ⟨rb', ?_, h'⟩
  simp only [readStringPrefixed, hprefix, hlen, hdata, Option.bind_eq_bind, Option.bind_some]

/-- The length 0 reads everything, also into a buffer of no bytes. -/
theorem readData_overflow (h : Holds rb q) (hne : q ≠ []) : rb.readData (some []) 0 = none := by
  have hused : rb.used > 0 := by
    rw [h.used_eq]
    exact List.length_pos_of_ne_nil hne
  have htmp : min rb.used (sub64 rb.capacity rb.readPos) > 0 := by
    have hr := h.inv.read_lt
    have hcap := h.inv.capacity_lt
    rw [sub64_of_le (by omega) (by omega)]
    omega
  simp only [readData, true_or, if_true, if_pos hused]
  cases hread : Block.read rb.data rb.readPos (min rb.used (sub64 rb.capacity rb.readPos)) with
  | none => rfl
  | some xs =>
    have hlen := Block.read_length hread
    have hwrite : Block.write ([] : List UInt8) 0 xs = none :=
      if_neg (by rw [hlen, List.length_nil]; omega)
    simp only [Option.bind_eq_bind, Option.bind_some, hwrite]
    rfl

/-- **An empty string in front of other strings** is not read back. -/
theorem readStringPrefixed_overflow {rest : List UInt8} (h : Holds rb (stringBytes [] ++ rest)) (hne : rest ≠ []) :
    rb.readStringPrefixed = none := by
  obtain ⟨rb₁, len, hprefix, hlen, h₁⟩ := readPrefix h (Nat.zero_le _)
  have hdata : rb₁.readString 0 = none := by
    rw [readString, List.replicate_zero, readData_overflow h₁ hne]
    rfl
  simp only [readStringPrefixed, hprefix, hlen, List.length_nil, hdata, Option.bind_eq_bind, Option.bind_some]

/-! ## Runs -/

inductive StringOp where
  | operatorShl (val : List UInt8)
  | readString
  | operatorShr (val : List UInt8)

/-- A call, with what the allocator leaves in the bytes that it adds during the call. -/
structure StringCall where
  fresh : Nat → UInt8
  op : StringOp

/-- A string that was read, with the number of bytes that were taken from the buffer. -/
abbrev StringResult := Option (List UInt8 × Nat)

def stringStep (rb : RingBuffer) (c : StringCall) : Option (RingBuffer × StringResult) :=
  match c.op with
  | .operatorShl val => (rb.operatorShlString c.fresh val).map (·, none)
  | .readString => rb.readStringPrefixed.map fun (rb', val) => (rb', some (val, rb.used - rb'.used))
  | .operatorShr old => (rb.operatorShrString old).map fun (rb', val) => (rb', some (val, rb.used - rb'.used))

/-- The string at the front, with its prefix. -/
def queueRead (q : List (List UInt8)) : List (List UInt8) × StringResult :=
  (q.tail, some (q.headD [], 2 + (q.headD []).length))

/-- The calls on a queue of strings. -/
def queueStep (q : List (List UInt8)) (c : StringCall) : List (List UInt8) × StringResult :=
  match c.op with
  | .operatorShl val => (q ++ [val], none)
  | .readString | .operatorShr _ => queueRead q

/-- A string has at most 65535 bytes, there is a string to read, and sizes stay below `2 ^ 62`. -/
def StringFits (q : List (List UInt8)) (c : StringCall) : Prop :=
  match c.op with
  | .operatorShl val => val.length ≤ 65535 ∧ (stringsBytes q).length + (stringBytes val).length < 2 ^ 62
  | .readString | .operatorShr _ => q ≠ []

/-- No empty string is read while others wait behind it. -/
def EmptyLast (q : List (List UInt8)) (c : StringCall) : Prop :=
  match c.op with
  | .operatorShl _ => True
  | .readString | .operatorShr _ => q.head? = some [] → q.tail = []

/-- The buffer holds the queue of strings. -/
structure HoldsStrings (rb : RingBuffer) (q : List (List UInt8)) : Prop where
  holds : Holds rb (stringsBytes q)
  short : ∀ val ∈ q, val.length ≤ 65535

variable {strings : List (List UInt8)}

/-- One read of a string. -/
theorem readString_refines (h : HoldsStrings rb strings) (hfit : strings ≠ [])
    (hclear : strings.head? = some [] → strings.tail = []) :
    ∃ rb', rb.readStringPrefixed = some (rb', strings.headD []) ∧ HoldsStrings rb' strings.tail ∧
      rb.used - rb'.used = 2 + (strings.headD []).length := by
  cases strings with
  | nil => exact absurd rfl hfit
  | cons val strings =>
    have hfront : Holds rb (stringBytes val ++ stringsBytes strings) := h.holds
    obtain ⟨rb', hread, h'⟩ := readStringPrefixed_spec hfront (h.short val (List.mem_cons_self ..)) fun hval => by
      have hnil : strings = [] := hclear (congrArg some hval)
      rw [hnil]
      rfl
    refine ⟨rb', hread, ⟨h', fun other hother => h.short other (List.mem_cons_of_mem val hother)⟩, ?_⟩
    rw [hfront.used_eq, h'.used_eq, List.length_append, stringBytes_length, Nat.add_sub_cancel]
    rfl

/-- **One call.** -/
theorem stringStep_refines (rb : RingBuffer) (strings : List (List UInt8)) (c : StringCall)
    (h : HoldsStrings rb strings) (hok : StringFits strings c ∧ EmptyLast strings c) :
    ∃ rb' r, stringStep rb c = some (rb', r) ∧ HoldsStrings rb' (queueStep strings c).1 ∧
      r = (queueStep strings c).2 := by
  obtain ⟨fresh, op⟩ := c
  obtain ⟨hfit, hclear⟩ := hok
  cases op with
  | operatorShl val =>
    obtain ⟨rb', hwrite, h'⟩ := operatorShlString_spec fresh h.holds val hfit.2
    refine ⟨rb', none, by simp only [stringStep, hwrite, Option.map_some], ⟨?_, fun other hother => ?_⟩, rfl⟩
    · simp only [queueStep, stringsBytes, List.flatMap_append, List.flatMap_singleton]
      exact h'
    · rcases List.mem_append.mp hother with hother | hother
      · exact h.short other hother
      · rw [List.mem_singleton.mp hother]
        exact hfit.1
  | readString =>
    obtain ⟨rb', hread, h', hused⟩ := readString_refines h hfit hclear
    refine ⟨rb', _, ?_, h', rfl⟩
    simp only [stringStep, hread, Option.map_some, hused]
    rfl
  | operatorShr old =>
    obtain ⟨rb', hread, h', hused⟩ := readString_refines h hfit hclear
    refine ⟨rb', _, ?_, h', rfl⟩
    simp only [stringStep, operatorShrString, hread, Option.map_some, hused]
    rfl

/-- A call that is defined does not read an empty string with others behind it. -/
theorem stringStep_needs (rb : RingBuffer) (strings : List (List UInt8)) (c : StringCall) (rb' : RingBuffer)
    (r : StringResult) (h : HoldsStrings rb strings) (hfit : StringFits strings c)
    (hrun : stringStep rb c = some (rb', r)) : EmptyLast strings c ∧ HoldsStrings rb' (queueStep strings c).1 := by
  have hclear : EmptyLast strings c := by
    obtain ⟨fresh, op⟩ := c
    have hoverflow : strings.head? = some [] → strings.tail ≠ [] → rb.readStringPrefixed = none := by
      intro hhead htail
      obtain ⟨rest, rfl⟩ := List.head?_eq_some_iff.mp hhead
      refine readStringPrefixed_overflow h.holds fun hnil => ?_
      obtain ⟨val, strings, hrest⟩ := List.exists_cons_of_ne_nil htail
      rw [List.tail_cons] at hrest
      have hlen : (stringBytes val ++ stringsBytes strings).length = 0 := by
        rw [hrest] at hnil
        exact congrArg List.length hnil
      rw [List.length_append, stringBytes_length] at hlen
      omega
    cases op with
    | operatorShl val => trivial
    | readString =>
      intro hhead
      by_contra htail
      simp only [stringStep, hoverflow hhead htail, Option.map_none] at hrun
      cases hrun
    | operatorShr old =>
      intro hhead
      by_contra htail
      simp only [stringStep, operatorShrString, hoverflow hhead htail, Option.map_none] at hrun
      cases hrun
  obtain ⟨rb'', r', hstep, h', -⟩ := stringStep_refines rb strings c h ⟨hfit, hclear⟩
  rw [hrun] at hstep
  obtain ⟨rfl, -⟩ := Prod.mk.inj (Option.some.inj hstep)
  exact ⟨hclear, h'⟩

/-- All strings come back in order, each read takes the prefix and the payload of its string, and
what is left is the strings that were not read. -/
def RoundTrips (calls : List StringCall) : Prop :=
  ∃ rb rs, runOps stringStep new calls = some (rb, rs) ∧ rs = (specRun queueStep [] calls).2 ∧
    rb.content = stringsBytes (specRun queueStep [] calls).1

/-- **The string round trip**: exactly where no empty string is read with others behind it. -/
theorem strings_round_trip (calls : List StringCall) (hfits : Admissible queueStep StringFits [] calls) :
    RoundTrips calls ↔ Admissible queueStep EmptyLast [] calls := by
  have hnew : HoldsStrings new [] := ⟨new_holds, fun val hval => absurd hval List.not_mem_nil⟩
  constructor
  · rintro ⟨rb, rs, hrun, -⟩
    exact runOps_needs stringStep_needs calls new [] hnew hfits hrun
  · intro hclear
    obtain ⟨rb, rs, hrun, h, hrs⟩ := runOps_refines stringStep_refines calls new [] hnew (hfits.and hclear)
    exact ⟨rb, rs, hrun, List.forall₂_eq_eq_eq ▸ hrs, h.holds.content_eq⟩

/-- An empty string is read before the next one is written. -/
theorem strings_round_trip_empty : RoundTrips
    [⟨fun _ => 7, .operatorShl []⟩, ⟨fun _ => 7, .readString⟩, ⟨fun _ => 7, .operatorShl [65]⟩,
      ⟨fun _ => 7, .operatorShr [9]⟩] :=
  (strings_round_trip _ (by simp [Admissible, StringFits, queueStep, queueRead, stringsBytes, stringBytes, leBytes])).mpr
    (by simp [Admissible, EmptyLast, queueStep, queueRead])

/-- An empty string with another behind it is not read back. -/
theorem empty_string_lost : Admissible queueStep StringFits []
      [⟨fun _ => 7, .operatorShl []⟩, ⟨fun _ => 7, .operatorShl [65]⟩, ⟨fun _ => 7, .readString⟩] ∧
    ¬ RoundTrips [⟨fun _ => 7, .operatorShl []⟩, ⟨fun _ => 7, .operatorShl [65]⟩, ⟨fun _ => 7, .readString⟩] := by
  refine ⟨by simp [Admissible, StringFits, queueStep, stringsBytes, stringBytes, leBytes], ?_⟩
  have hnone : runOps stringStep new
      [⟨fun _ => 7, .operatorShl []⟩, ⟨fun _ => 7, .operatorShl [65]⟩, ⟨fun _ => 7, .readString⟩] = none := by
    decide +kernel
  rintro ⟨rb, rs, hrun, -⟩
  rw [hnone] at hrun
  cases hrun

end Libws.Core.RingBuffer
