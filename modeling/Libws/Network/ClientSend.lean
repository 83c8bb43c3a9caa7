import Libws.Network.ClientSocket

/-!
# What `tryToSend` hands to the system

* `SendCounts` — a system: what `::send` returns, by the number of the call and the length passed;
* `sendTo` — the loop of `tryToSend` on a system, and `sendTo_results`: the results that the system returns in it;
* `sendTo_spec` — `remain` is always what the buffer has left to read, and with each result it gets less;
* `tryToSend_exactly_once`.
-/

set_option autoImplicit false

namespace Libws.Network

open Libws.Word Libws.Core.ByteArray

/-- The results of `::send`: an error, or a count that is at least 1 and at most the length passed.  The result
0, which a `::send` of length 0 may return, is left out: on it the loop goes round without end.  A loop that
starts at read position 0 passes no length 0 (`readData_chunk`); one that starts behind a part that an error
left read can. -/
abbrev SendCounts :=
    (call length : Nat) → { sentLength : Int // sentLength = -1 ∨ 1 ≤ sentLength ∧ sentLength ≤ length }

/-- A system that takes one byte at a time. -/
def SendCounts.bytewise : SendCounts :=
  fun _ length => if h : 1 ≤ length then ⟨1, Or.inr ⟨by decide, Int.ofNat_le.mpr h⟩⟩ else ⟨-1, Or.inl rfl⟩

theorem SendCounts.bytewise_ne_error (call : Nat) {length : Nat} (h : 0 < length) :
    (bytewise call length).val ≠ -1 := by
  rw [bytewise, dif_pos (Nat.succ_le_of_lt h)]
  exact (by decide : (1 : Int) ≠ -1)

namespace ClientSocket

/-- The loop `while (remain)` of `tryToSend`: the buffer, what `tryToSend` returns, and the bytes that the system
took. -/
def sendTo (os : SendCounts) : (fuel call : Nat) → (writerBuffer : Core.ByteArray) → (remain : Nat) →
    Option (Core.ByteArray × Bool × List UInt8)
  | 0, _, _, _ => none
  | fuel + 1, call, writerBuffer, remain =>
    if remain = 0 then some (writerBuffer.clear, true, [])
    else
      match writerBuffer.readData (some (List.replicate BUFFER_SIZE 0)) BUFFER_SIZE with
      | none => none
      | some (writerBuffer, buffer, length) =>
        let sentLength := (os call length).val
        if sentLength = -1 then some (writerBuffer, false, [])
        else
          let writerBuffer := if sentLength < length then writerBuffer.seek (sentLength - length) else writerBuffer
          (sendTo os fuel (call + 1) writerBuffer (sub64 remain sentLength.toNat)).map fun (writerBuffer, ok, sent) =>
            (writerBuffer, ok, (buffer.getD []).take sentLength.toNat ++ sent)

/-- `tryToSend`.  Each result lowers `remain`. -/
def tryToSendTo (os : SendCounts) (c : ClientSocket) : Option (ClientSocket × Bool × List UInt8) :=
  (sendTo os (c.writerBuffer.size + 1) 0 c.writerBuffer c.writerBuffer.size).map fun (writerBuffer, ok, sent) =>
    ({ c with writerBuffer := writerBuffer }, ok, sent)

/-- A run of the loop is the one with the results that the system returned in it. -/
theorem sendTo_results {os : SendCounts} {r : Core.ByteArray × Bool × List UInt8} (fuel : Nat) :
    ∀ (call : Nat) (writerBuffer : Core.ByteArray) (remain : Nat),
      sendTo os fuel call writerBuffer remain = some r →
      ∃ results, sendRemaining writerBuffer remain results = some r := by
  induction fuel generalizing r with
  | zero => exact fun _ _ _ => nofun
  | succ fuel ih =>
    intro call writerBuffer remain hrun
    rw [sendTo] at hrun
    split at hrun
    · rename_i hzero
      exact ⟨[], by rw [sendRemaining, if_pos hzero]; exact hrun⟩
    rename_i hremain
    split at hrun
    · cases hrun
    rename_i writerBuffer' buffer length hread
    simp only at hrun
    split at hrun
    · rename_i herror
      refine ⟨[(os call length).val], ?_⟩
      simp only [sendRemaining, if_neg hremain, hread, if_pos herror, if_true]
      exact hrun
    · rename_i hcount
      obtain ⟨⟨b, ok, sent⟩, hrest, hr⟩ := Option.map_eq_some_iff.mp hrun
      obtain ⟨results, hresults⟩ := ih _ _ _ hrest
      refine ⟨(os call length).val :: results, ?_⟩
      simp only [sendRemaining, if_neg hremain, hread, if_neg hcount, hresults, Option.map_some]
      exact congrArg some hr

theorem tryToSendTo_results {os : SendCounts} {c : ClientSocket} {r : ClientSocket × Bool × List UInt8}
    (hrun : c.tryToSendTo os = some r) : ∃ results, c.tryToSend results = some r := by
  obtain ⟨⟨b, ok, sent⟩, hloop, hr⟩ := Option.map_eq_some_iff.mp hrun
  obtain ⟨results, hresults⟩ := sendTo_results _ _ _ _ hloop
  exact ⟨results, by rw [tryToSend, hresults]; exact congrArg some hr⟩

/-! ## The loop -/

/-- The read of one iteration. -/
theorem readData_chunk {b : Core.ByteArray} {t : Tape UInt8} (h : Holds b t) (hne : t.unread.length ≠ 0) :
    ∃ b' buffer length,
      b.readData (some (List.replicate BUFFER_SIZE 0)) BUFFER_SIZE = some (b', some buffer, length) ∧
      0 < length ∧ length = min BUFFER_SIZE t.unread.length ∧ Holds b' (t.advance length) ∧
      ∀ n ≤ length, buffer.take n = t.unread.take n := by
  have hlen := t.unread_length
  have hlength : readLength t BUFFER_SIZE = min BUFFER_SIZE t.unread.length := by
    rw [readLength, if_neg (by decide), hlen]
  have hbuf : readLength t BUFFER_SIZE ≤ (List.replicate BUFFER_SIZE (0 : UInt8)).length := by
    rw [hlength, List.length_replicate]
    exact Nat.min_le_left _ _
  obtain ⟨b', hread, h'⟩ := readData_spec h hbuf
  rw [hlength] at hread h'
  refine ⟨b', _, _, hread, ?_, rfl, h', fun n hn => ?_⟩
  · rw [Nat.lt_min]
    exact ⟨by decide, Nat.pos_of_ne_zero hne⟩
  · have hpeek : (t.peek (min BUFFER_SIZE t.unread.length)).length = min BUFFER_SIZE t.unread.length := by
      rw [Tape.peek_length, ← hlen]
      omega
    rw [Block.overwrite, List.take_append_of_le_length (by omega), Tape.peek, List.take_take, Nat.min_eq_left hn]

/-- Going back over what the system did not take. -/
theorem seek_unsent {b : Core.ByteArray} {t : Tape UInt8} {length n : Nat} (h : Holds b (t.advance length))
    (hle : length ≤ t.unread.length) (hn : n ≤ length) :
    Holds (if (n : Int) < length then b.seek (n - length) else b) (t.advance n) := by
  have hlen := t.unread_length
  have hcur := t.cursor_le
  split
  · rename_i hlt
    have hback : (n : Int) - length = -((length - n : Nat) : Int) := by omega
    have hcursor : (t.advance length).cursor = t.cursor + length := Nat.min_eq_left (by omega)
    have hseek := seek_back_spec h (n := length - n) (by omega) (by omega)
    rw [hback]
    have hsame : (t.advance length).moveTo ((t.advance length).cursor - (length - n)) = t.advance n :=
      Tape.ext rfl (by simp only [Tape.moveTo, Tape.advance]; omega)
    rwa [hsame] at hseek
  · rwa [show n = length by omega]

/-- **The loop ends**: it hands over all that is unread, and empties the buffer, or it hands over the first part of
it, and the call for the next one returned an error. -/
theorem sendTo_spec (os : SendCounts) (fuel : Nat) :
    ∀ (call : Nat) (b : Core.ByteArray) (t : Tape UInt8), Holds b t →
    t.unread.length < fuel → ∃ b' ok sent, sendTo os fuel call b t.unread.length = some (b', ok, sent) ∧
      (ok = true → sent = t.unread ∧ Holds b' Tape.empty) ∧
      (ok = false → sent <+: t.unread ∧ sent.length < t.unread.length ∧
        ∃ call, (os call (min BUFFER_SIZE (t.unread.length - sent.length))).val = -1) := by
  induction fuel with
  | zero => exact fun _ _ _ _ hfuel => absurd hfuel (Nat.not_lt_zero _)
  | succ fuel ih =>
    intro call b t h hfuel
    by_cases hzero : t.unread.length = 0
    · have hnil : t.unread = [] := List.length_eq_zero_iff.mp hzero
      refine ⟨b.clear, true, [], by rw [sendTo, if_pos hzero], fun _ => ⟨hnil.symm, clear_spec h⟩, nofun⟩
    · obtain ⟨b₁, buffer, length, hread, hpos, hlength, h₁, hbuffer⟩ := readData_chunk h hzero
      rw [sendTo, if_neg hzero]
      simp only [hread, Option.getD_some]
      rcases hos : os call length with ⟨sentLength, hcount⟩
      by_cases herror : sentLength = -1
      · simp only [if_pos herror]
        refine ⟨b₁, false, [], rfl, nofun, fun _ => ⟨List.nil_prefix, Nat.pos_of_ne_zero hzero, call, ?_⟩⟩
        rw [List.length_nil, Nat.sub_zero, ← hlength, hos]
        exact herror
      · obtain ⟨n, rfl⟩ := Int.eq_ofNat_of_zero_le (show 0 ≤ sentLength by omega)
        have hn : n ≤ length := by omega
        have h₂ := seek_unsent h₁ (by omega) hn
        have hrest : t.unread.take n ++ (t.advance n).unread = t.unread := t.peek_append_rest n
        have hsplit : n + (t.advance n).unread.length = t.unread.length := by
          have hlen := congrArg List.length hrest
          rw [List.length_append, List.length_take] at hlen
          omega
        have hword : t.unread.length < 2 ^ 64 := by
          have hw := h.writePos_eq
          have hwle := h.owned.write_le
          have hcap := h.owned.capacity_lt
          rw [t.unread_length]
          omega
        have hremain : sub64 t.unread.length n = (t.advance n).unread.length := by
          rw [sub64_of_le (by omega) hword]
          omega
        obtain ⟨b', ok, sent, hrun, hall, hfirst⟩ := ih (call + 1) _ (t.advance n) h₂ (by omega)
        simp only [if_neg herror, Int.toNat_natCast, hremain, hrun, Option.map_some, hbuffer n hn]
        refine ⟨b', ok, _, rfl, fun hok => ?_, fun hok => ?_⟩
        · obtain ⟨hsent, hempty⟩ := hall hok
          exact ⟨by rw [hsent, hrest], hempty⟩
        · obtain ⟨hsent, hless, hcall⟩ := hfirst hok
          have hstart := (List.prefix_append_right_inj (t.unread.take n)).mpr hsent
          have htook : (t.unread.take n ++ sent).length = n + sent.length := by
            rw [List.length_append, List.length_take]
            omega
          have hleft : t.unread.length - (n + sent.length) = (t.advance n).unread.length - sent.length := by omega
          rw [hrest] at hstart
          rw [htook, hleft]
          exact ⟨hstart, by omega, hcall⟩

/-- **`tryToSend` sends the buffer exactly once.**  Whatever counts the system returns, it ends; if it returns
`true`, the system took the content, and the buffer is empty; if it returns `false`, the system took a first
part of it, not all, and returned an error for the next one.  So it returns `true` unless a result is an
error. -/
theorem tryToSend_exactly_once (os : SendCounts) (c : ClientSocket) (content : List UInt8)
    (h : Holds c.writerBuffer ⟨content, 0, Nat.zero_le _⟩) :
    ∃ c' ok sent, c.tryToSendTo os = some (c', ok, sent) ∧
      (ok = true → sent = content ∧ c'.writerBuffer.content = []) ∧
      (ok = false → sent <+: content ∧ sent.length < content.length ∧
        ∃ call, (os call (min BUFFER_SIZE (content.length - sent.length))).val = -1) := by
  obtain ⟨b', ok, sent, hrun, hall, hfirst⟩ := sendTo_spec os (c.writerBuffer.size + 1) 0 c.writerBuffer _ h
    (by rw [Core.ByteArray.size, h.writePos_eq]; exact Nat.lt_succ_self _)
  have hsize : c.writerBuffer.size = content.length := h.writePos_eq
  rw [hsize] at hrun
  refine ⟨{ c with writerBuffer := b' }, ok, sent, ?_, fun hok => ?_, hfirst⟩
  · rw [tryToSendTo, hsize]
    exact congrArg (Option.map _) hrun
  · obtain ⟨hsent, hempty⟩ := hall hok
    exact ⟨hsent, hempty.content_eq⟩

/-- Three bytes to a system that takes one at a time: they are sent. -/
theorem tryToSend_exactly_once_bytes : ∃ c' ok sent,
    tryToSendTo SendCounts.bytewise { new with writerBuffer := ⟨false, false, [1, 2, 3], 0, 3, 3⟩ } =
      some (c', ok, sent) ∧
    ok = true ∧ sent = [1, 2, 3] ∧ c'.writerBuffer.content = [] := by
  obtain ⟨c', ok, sent, hrun, hall, hfirst⟩ := tryToSend_exactly_once SendCounts.bytewise
    { new with writerBuffer := ⟨false, false, [1, 2, 3], 0, 3, 3⟩ } [1, 2, 3]
    ⟨⟨rfl, rfl, rfl, by decide, by decide, by decide, by decide⟩, rfl, rfl⟩
  cases ok with
  | true => exact ⟨c', true, sent, hrun, rfl, hall rfl⟩
  | false =>
    obtain ⟨-, hless, call, herror⟩ := hfirst rfl
    exact absurd herror (SendCounts.bytewise_ne_error call (Nat.lt_min.mpr ⟨by decide, Nat.sub_pos_of_lt hless⟩))

end ClientSocket

end Libws.Network
