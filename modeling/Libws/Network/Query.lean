import Mathlib.Algebra.Order.BigOperators.Group.List
import Mathlib.Algebra.Order.Group.Nat
import Mathlib.Data.List.Pairwise
import Mathlib.Data.List.TakeDrop
import Mathlib.Data.List.TakeWhile
import Libws.Lib.Integer
import Libws.Lib.Percent
import Libws.Core.StringsUrl
import Libws.Network.HttpClient

/-!
# `ws::network::HttpClient::buildQuery`: what an escaped query says

`buildQuery` with escaping, as the text that a receiver takes apart: at every `&`, each piece at its first `=`,
and both sides decoded.

* The values go through `curl_easy_escape` with their length as an `int`; the keys do not.
* `mem_readQuery` — the pieces of the query are the pieces of its entries, each entry apart from the others;
* `pair_of_piece` — a piece of an entry is that entry where the key keeps to itself, and has a shorter key
  elsewhere;
* `query_recovers_iff` — the maps that come back.
-/

set_option autoImplicit false

namespace Libws.Network.Http

open Libws.Percent
open Libws.Integer (IntType)
open Libws.Core.Strings (unreserved)

/-! ## Model -/

section Model

variable (curl_easy_escape : Bytes → Int → Option Bytes)

/-- `curl_easy_escape(handle, p.second.c_str(), (int)p.second.length())`; `none` is the null pointer. -/
def escaped (value : Bytes) : Option Bytes := curl_easy_escape value ((IntType.int true .w32).cast value.length)

/-- `buildQuery(params, true)`: to append a null pointer is undefined. -/
def buildEscapedQuery (params : Params) : Option Bytes :=
  if ∀ p ∈ params.entries, (escaped curl_easy_escape p.2).isSome then
    some (buildQuery (fun value => (escaped curl_easy_escape value).getD []) params true)
  else none

/-- What `curl_easy_escape` does with a string and a length.  Length zero stands for the bytes up to the first
NUL, and a negative one is refused. -/
structure PercentEncodes : Prop where
  sized (string : Bytes) (length : Nat) : 0 < length → length ≤ string.length →
    curl_easy_escape string length = some (encode unreserved (string.take length))
  zero (string : Bytes) : curl_easy_escape string 0 = some (encode unreserved (string.takeWhile (· ≠ 0)))
  negative (string : Bytes) (length : Int) : length < 0 → curl_easy_escape string length = none

end Model

/-- The pieces between the `&`; the empty query has none. -/
def pieces (query : Bytes) : List Bytes := if query = [] then [] else query.splitOn 0x26

/-- A piece, cut at its first `=` and decoded. -/
def pair (piece : Bytes) : Bytes × Bytes :=
  (decode (piece.takeWhile (· ≠ 0x3D)), decode (piece.dropWhile (· ≠ 0x3D)).tail)

def readQuery (query : Bytes) : List (Bytes × Bytes) := (pieces query).map pair

/-- The query gives back exactly the map. -/
def Recovers (curl_easy_escape : Bytes → Int → Option Bytes) (params : Params) : Prop :=
  ∃ query, buildEscapedQuery curl_easy_escape params = some query ∧
    ∀ p : Bytes × Bytes, p ∈ readQuery query ↔ p ∈ params.entries

/-- A key without `&`, without `=`, and without a `%` in front of two hexadecimal digits. -/
def Separate (key : Bytes) : Prop := 0x26 ∉ key ∧ 0x3D ∉ key ∧ Plain key

/-- A value whose length is the same as an `int`, or zero as an `int` while no byte of it is NUL. -/
def Fits (value : Bytes) : Prop := value.length < 2 ^ 31 ∨ (2 ^ 32 ∣ value.length ∧ 0 ∉ value)

/-! ## The query -/

/-- The text of one entry. -/
def entryText (escape : Bytes → Bytes) (p : Bytes × Bytes) : Bytes := p.1 ++ 0x3D :: escape p.2

theorem intercalate_append_cons {α : Type} (sep a b : List α) (rest : List (List α)) :
    sep.intercalate ((a ++ (sep ++ b)) :: rest) = sep.intercalate (a :: b :: rest) := by
  cases rest <;> simp

theorem foldl_buildQueryStep (escape : Bytes → Bytes) : ∀ (entries : List (Bytes × Bytes)) (acc : Bytes) (count : Nat),
    (entries.foldl (buildQueryStep escape true) (acc, count + 1)).1 =
      List.intercalate [0x26] (acc :: entries.map (entryText escape))
  | [], acc, count => by simp
  | p :: entries, acc, count => by
    have hstep : buildQueryStep escape true (acc, count + 1) p =
        (acc ++ ([0x26] ++ entryText escape p), count + 1 + 1) := by
      simp [buildQueryStep, entryText]
    rw [List.foldl_cons, hstep, foldl_buildQueryStep escape entries, intercalate_append_cons, List.map_cons]

/-- The entries, joined. -/
theorem buildQuery_eq (escape : Bytes → Bytes) (params : Params) :
    buildQuery escape params true = List.intercalate [0x26] (params.entries.map (entryText escape)) := by
  rw [buildQuery]
  cases params.entries with
  | nil => rfl
  | cons p entries =>
    have hstep : buildQueryStep escape true ([], 0) p = (entryText escape p, 0 + 1) := by
      simp [buildQueryStep, entryText]
    rw [List.foldl_cons, hstep, foldl_buildQueryStep, List.map_cons]

theorem splitOn_intercalate_eq {α : Type} [BEq α] [LawfulBEq α] (x : α) :
    ∀ {parts : List (List α)}, parts ≠ [] →
      (List.intercalate [x] parts).splitOn x = parts.flatMap (List.splitOn x)
  | [], h => absurd rfl h
  | [part], _ => by simp
  | part :: next :: parts, _ => by
    rw [List.intercalate_cons_cons, List.append_assoc, List.singleton_append, List.splitOn_append_cons_self,
      splitOn_intercalate_eq x (List.cons_ne_nil next parts)]
    exact (List.flatMap_cons ..).symm

/-- **The pieces of the query** are those of its entries. -/
theorem pieces_buildQuery (escape : Bytes → Bytes) (params : Params) :
    pieces (buildQuery escape params true) =
      params.entries.flatMap fun p => (entryText escape p).splitOn 0x26 := by
  rw [buildQuery_eq, pieces]
  cases params.entries with
  | nil => simp
  | cons p entries =>
    have hne : List.intercalate [0x26] ((p :: entries).map (entryText escape)) ≠ [] := by
      cases entries <;> simp [entryText]
    rw [if_neg hne, splitOn_intercalate_eq _ (by simp), List.flatMap_map]

theorem mem_readQuery {escape : Bytes → Bytes} {params : Params} {t : Bytes × Bytes} :
    t ∈ readQuery (buildQuery escape params true) ↔
      ∃ p ∈ params.entries, ∃ piece ∈ (entryText escape p).splitOn 0x26, pair piece = t := by
  simp only [readQuery, pieces_buildQuery, List.mem_map, List.mem_flatMap]
  exact ⟨fun ⟨piece, ⟨p, hp, hpiece⟩, ht⟩ => ⟨p, hp, piece, hpiece, ht⟩,
    fun ⟨p, hp, piece, hpiece, ht⟩ => ⟨piece, ⟨p, hp, hpiece⟩, ht⟩⟩

/-! ## One entry -/

theorem takeWhile_append_self {α : Type} [DecidableEq α] (a : α) (key w : List α) :
    (key ++ a :: w).takeWhile (· ≠ a) = key.takeWhile (· ≠ a) := by
  rw [List.takeWhile_append]
  split
  · rename_i hwhole
    rw [(List.takeWhile_prefix _).eq_of_length hwhole]
    simp
  · rfl

variable {escape : Bytes → Bytes} {p : Bytes × Bytes} {piece : Bytes}

/-- A piece of an entry has at most the key in front of its first `=`. -/
theorem length_takeWhile_piece {w : Bytes} (hw : 0x26 ∉ w) {key : Bytes}
    (h : piece ∈ (key ++ 0x3D :: w).splitOn 0x26) : (piece.takeWhile (· ≠ 0x3D)).length ≤ key.length := by
  by_cases hamp : 0x26 ∈ key
  · obtain ⟨front, rest, hkey, hfront⟩ := List.eq_append_cons_of_mem hamp
    have hlength : key.length = front.length + (rest.length + 1) := by simp [hkey]
    rw [hkey, List.append_assoc, List.cons_append, List.splitOn_append_cons_self_of_not_mem hfront,
      List.mem_cons] at h
    rcases h with rfl | h
    · have hle := (List.takeWhile_prefix (l := piece) (· ≠ 0x3D)).length_le
      omega
    · have hrest := length_takeWhile_piece hw h
      omega
  · rw [List.splitOn_eq_singleton (by simp [hamp, hw]), List.mem_singleton] at h
    rw [h, takeWhile_append_self]
    exact (List.takeWhile_prefix _).length_le
termination_by key.length

/-- **A piece of an entry** is the entry where the key keeps to itself.  Elsewhere its key is shorter. -/
theorem pair_of_piece (hw : 0x26 ∉ escape p.2) (h : piece ∈ (entryText escape p).splitOn 0x26) :
    (Separate p.1 ∧ pair piece = (p.1, decode (escape p.2))) ∨
      (¬ Separate p.1 ∧ (pair piece).1.length < p.1.length) := by
  rw [entryText] at h
  by_cases hamp : 0x26 ∈ p.1
  · refine .inr ⟨fun hkey => hkey.1 hamp, Nat.lt_of_le_of_lt (length_decode_le _) ?_⟩
    obtain ⟨front, rest, hkey, hfront⟩ := List.eq_append_cons_of_mem hamp
    rw [hkey, List.append_assoc, List.cons_append, List.splitOn_append_cons_self_of_not_mem hfront,
      List.mem_cons] at h
    rw [hkey, List.length_append, List.length_cons]
    rcases h with rfl | h
    · have hle := (List.takeWhile_prefix (l := piece) (· ≠ 0x3D)).length_le
      omega
    · have hrest := length_takeWhile_piece hw h
      omega
  · rw [List.splitOn_eq_singleton (by simp [hamp, hw]), List.mem_singleton] at h
    by_cases heq : 0x3D ∈ p.1
    · refine .inr ⟨fun hkey => hkey.2.1 heq, Nat.lt_of_le_of_lt (length_decode_le _) ?_⟩
      rw [h, takeWhile_append_self]
      refine Nat.lt_of_le_of_ne (List.takeWhile_prefix _).length_le fun hlength => ?_
      have hwhole := (List.takeWhile_prefix _).eq_of_length hlength
      simpa using List.takeWhile_eq_self_iff.mp hwhole _ heq
    · have hkeep : ∀ c ∈ p.1, decide (c ≠ 0x3D) = true := by
        intro c hc
        simpa using ne_of_mem_of_not_mem hc heq
      have hpair : pair piece = (decode p.1, decode (escape p.2)) := by
        rw [pair, h, List.takeWhile_append_of_pos hkeep, List.dropWhile_append_of_pos hkeep]
        simp
      rcases decode_spec p.1 with ⟨hplain, hself⟩ | ⟨hplain, hlt⟩
      · exact .inl ⟨⟨hamp, heq, hplain⟩, by rw [hpair, hself]⟩
      · exact .inr ⟨fun hkey => hplain hkey.2.2, by rw [hpair]; exact hlt⟩

/-! ## The values -/

/-- The length as an `int`. -/
theorem int_length (n : Nat) : (IntType.int true .w32).cast n =
    if n % 2 ^ 32 < 2 ^ 31 then ((n % 2 ^ 32 : Nat) : Int) else ((n % 2 ^ 32 : Nat) : Int) - 2 ^ 32 := by
  have hmodulus : Integer.Width.modulus .w32 = 2 ^ 32 := by decide
  simp only [IntType.cast, hmodulus, Int.bmod_def]
  split <;> split <;> omega

variable {curl_easy_escape : Bytes → Int → Option Bytes}

/-- **A value** is refused, or a part of it is encoded: the whole of it where it fits. -/
theorem escaped_spec (hcurl : PercentEncodes curl_easy_escape) (value : Bytes) :
    (escaped curl_easy_escape value = none ∧ ¬ Fits value) ∨
      ∃ part, escaped curl_easy_escape value = some (encode unreserved part) ∧ (part = value ↔ Fits value) := by
  have hmod := Nat.mod_le value.length (2 ^ 32)
  rw [escaped, int_length, Fits]
  by_cases hsign : value.length % 2 ^ 32 < 2 ^ 31
  · rw [if_pos hsign]
    rcases Nat.eq_zero_or_pos (value.length % 2 ^ 32) with hzero | hpos
    · refine .inr ⟨_, by rw [hzero]; exact hcurl.zero value, ?_⟩
      rw [List.takeWhile_eq_self_iff]
      constructor
      · exact fun hall => .inr ⟨Nat.dvd_of_mod_eq_zero hzero, fun hmem => by simpa using hall 0 hmem⟩
      · rintro (hlt | ⟨-, hnul⟩) c hc
        · have hempty : value = [] := List.length_eq_zero_iff.mp (by omega)
          simp [hempty] at hc
        · simpa using ne_of_mem_of_not_mem hc hnul
    · refine .inr ⟨_, hcurl.sized value _ hpos hmod, ?_⟩
      rw [List.take_eq_self_iff]
      constructor
      · exact fun hle => .inl (by omega)
      · rintro (hlt | ⟨hdvd, -⟩)
        · omega
        · omega
  · rw [if_neg hsign]
    refine .inl ⟨hcurl.negative value _ (by omega), ?_⟩
    rintro (hlt | ⟨hdvd, -⟩)
    · omega
    · omega

/-- What stands for a value in the query has no `&`. -/
theorem amp_not_mem_escaped (hcurl : PercentEncodes curl_easy_escape) (value : Bytes) :
    0x26 ∉ (escaped curl_easy_escape value).getD [] := by
  rcases escaped_spec hcurl value with ⟨hnone, -⟩ | ⟨part, hsome, -⟩
  · simp [hnone]
  · rw [hsome, Option.getD_some]
    intro hmem
    have hchars : ¬ (unreserved 0x26 = true ∨ 0x26 = mark ∨ Hex.IsDigit 0x26) := by decide
    exact hchars (mem_encode hmem)

/-- A value comes back exactly where it fits. -/
theorem decode_escaped_iff (hcurl : PercentEncodes curl_easy_escape) (value : Bytes) :
    ((escaped curl_easy_escape value).isSome ∧ decode ((escaped curl_easy_escape value).getD []) = value) ↔
      Fits value := by
  rcases escaped_spec hcurl value with ⟨hnone, hfits⟩ | ⟨part, hsome, hfits⟩
  · simp [hnone, hfits]
  · have hmark : unreserved mark = false := by decide
    simp [hsome, decode_encode hmark, hfits]

/-! ## The map -/

theorem Params.eq_of_key (params : Params) {p q : Bytes × Bytes} (hp : p ∈ params.entries) (hq : q ∈ params.entries)
    (hkey : p.1 = q.1) : p = q := by
  by_contra hne
  have hdistinct : params.entries.Pairwise fun p q => p.1 ≠ q.1 := by
    refine params.sorted.imp fun hlt heq => ?_
    rw [heq] at hlt
    exact List.lt_irrefl _ hlt
  have : Std.Symm fun p q : Bytes × Bytes => p.1 ≠ q.1 := ⟨fun _ _ => Ne.symm⟩
  exact hdistinct.forall hp hq hne hkey

/-- In a list, nothing has a property that always comes with a greater member that has it too. -/
theorem not_of_greater {α : Type} {l : List α} {P : α → Prop} (size : α → Nat)
    (h : ∀ a ∈ l, P a → ∃ b ∈ l, P b ∧ size a < size b) {a : α} (ha : a ∈ l) : ¬ P a := by
  intro hP
  have hfar : ∀ n, ∃ b ∈ l, P b ∧ n ≤ size b := by
    intro n
    induction n with
    | zero => exact ⟨a, ha, hP, Nat.zero_le _⟩
    | succ n ih =>
      obtain ⟨b, hb, hPb, hn⟩ := ih
      obtain ⟨c, hc, hPc, hlt⟩ := h b hb hPb
      exact ⟨c, hc, hPc, Nat.lt_of_le_of_lt hn hlt⟩
  obtain ⟨b, hb, -, hle⟩ := hfar ((l.map size).sum + 1)
  have hsum := List.le_sum_of_mem (List.mem_map_of_mem (f := size) hb)
  omega

variable {params : Params}

/-- If every entry is read, every key keeps to itself: a longest one that does not is read from no piece. -/
theorem separate_of_read (hamp : ∀ value, 0x26 ∉ escape value)
    (hread : ∀ p ∈ params.entries, p ∈ readQuery (buildQuery escape params true)) :
    ∀ p ∈ params.entries, Separate p.1 := by
  intro p hp
  by_contra hkey
  refine not_of_greater (P := fun p : Bytes × Bytes => ¬ Separate p.1) (fun p => p.1.length) ?_ hp hkey
  intro p hp hkey
  obtain ⟨q, hq, piece, hpiece, hpair⟩ := mem_readQuery.mp (hread p hp)
  rcases pair_of_piece (hamp q.2) hpiece with ⟨hseparate, heq⟩ | ⟨hseparate, hlt⟩
  · rw [hpair] at heq
    rw [heq] at hkey
    exact absurd hseparate hkey
  · rw [hpair] at hlt
    exact ⟨q, hq, hseparate, hlt⟩

/-- Keys that keep to themselves are read as they are, one by one. -/
theorem readQuery_of_separate (hamp : ∀ value, 0x26 ∉ escape value) (hkeys : ∀ p ∈ params.entries, Separate p.1) :
    readQuery (buildQuery escape params true) = params.entries.map fun p => (p.1, decode (escape p.2)) := by
  rw [readQuery, pieces_buildQuery, List.map_flatMap, List.map_eq_flatMap]
  refine List.flatMap_congr fun p hp => ?_
  have hwhole : (entryText escape p).splitOn 0x26 = [entryText escape p] := by
    apply List.splitOn_eq_singleton
    simp [entryText, (hkeys p hp).1, hamp p.2]
  rcases pair_of_piece (hamp p.2) (hwhole ▸ List.mem_singleton_self _) with ⟨-, heq⟩ | ⟨hkey, -⟩
  · rw [hwhole, List.map_singleton, heq]
  · exact absurd (hkeys p hp) hkey

theorem buildEscapedQuery_eq_some {query : Bytes} :
    buildEscapedQuery curl_easy_escape params = some query ↔
      (∀ p ∈ params.entries, (escaped curl_easy_escape p.2).isSome) ∧
        buildQuery (fun value => (escaped curl_easy_escape value).getD []) params true = query := by
  simp [buildEscapedQuery]

theorem separate_of_recovers (hcurl : PercentEncodes curl_easy_escape) (h : Recovers curl_easy_escape params) :
    ∀ p ∈ params.entries, Separate p.1 := by
  obtain ⟨query, hquery, hread⟩ := h
  obtain ⟨-, rfl⟩ := buildEscapedQuery_eq_some.mp hquery
  exact separate_of_read (amp_not_mem_escaped hcurl) fun p hp => (hread p).mpr hp

/-- A map that comes back does so entry by entry, in its order. -/
theorem recovers_iff_entries (hcurl : PercentEncodes curl_easy_escape) :
    Recovers curl_easy_escape params ↔
      ∃ query, buildEscapedQuery curl_easy_escape params = some query ∧ readQuery query = params.entries := by
  refine ⟨fun h => ?_, fun ⟨query, hquery, heq⟩ => ⟨query, hquery, fun p => by rw [heq]⟩⟩
  have hkeys := separate_of_recovers hcurl h
  obtain ⟨query, hquery, hread⟩ := h
  refine ⟨query, hquery, ?_⟩
  obtain ⟨-, rfl⟩ := buildEscapedQuery_eq_some.mp hquery
  have hmap := readQuery_of_separate (amp_not_mem_escaped hcurl) hkeys
  rw [hmap]
  conv_rhs => rw [← List.map_id params.entries]
  refine List.map_congr_left fun p hp => ?_
  have hmem := (hread (p.1, decode ((escaped curl_easy_escape p.2).getD []))).mp (hmap ▸ List.mem_map_of_mem hp)
  exact params.eq_of_key hmem hp rfl

/-- **Escaped queries.**  A map comes back from its query if and only if no key has a `&`, a `=` or an escape of
its own, and every value has the length that its `int` has; of maps that come back, no two have one query. -/
theorem query_recovers_iff (hcurl : PercentEncodes curl_easy_escape) :
    (∀ params, Recovers curl_easy_escape params ↔ ∀ p ∈ params.entries, Separate p.1 ∧ Fits p.2) ∧
      ∀ params other, Recovers curl_easy_escape params → Recovers curl_easy_escape other →
        buildEscapedQuery curl_easy_escape params = buildEscapedQuery curl_easy_escape other → params = other := by
  constructor
  · intro params
    constructor
    · intro h p hp
      have hkeys := separate_of_recovers hcurl h
      refine ⟨hkeys p hp, (decode_escaped_iff hcurl p.2).mp ?_⟩
      obtain ⟨query, hquery, heq⟩ := (recovers_iff_entries hcurl).mp h
      obtain ⟨hsome, rfl⟩ := buildEscapedQuery_eq_some.mp hquery
      rw [readQuery_of_separate (amp_not_mem_escaped hcurl) hkeys] at heq
      have hmem := List.mem_map_of_mem (f := fun p => (p.1, decode ((escaped curl_easy_escape p.2).getD []))) hp
      rw [heq] at hmem
      exact ⟨hsome p hp, congrArg Prod.snd (params.eq_of_key hmem hp rfl)⟩
    · intro h
      refine (recovers_iff_entries hcurl).mpr ⟨_, buildEscapedQuery_eq_some.mpr ⟨fun p hp => ?_, rfl⟩, ?_⟩
      · exact ((decode_escaped_iff hcurl p.2).mpr (h p hp).2).1
      · rw [readQuery_of_separate (amp_not_mem_escaped hcurl) fun p hp => (h p hp).1]
        conv_rhs => rw [← List.map_id params.entries]
        refine List.map_congr_left fun p hp => ?_
        rw [((decode_escaped_iff hcurl p.2).mpr (h p hp).2).2, id]
  · intro params other hparams hother heq
    obtain ⟨query, hquery, hread⟩ := (recovers_iff_entries hcurl).mp hparams
    obtain ⟨query', hquery', hread'⟩ := (recovers_iff_entries hcurl).mp hother
    rw [hquery, hquery', Option.some.injEq] at heq
    cases params
    cases other
    simp_all

/-- A `curl_easy_escape` that works. -/
def percentEscape (string : Bytes) (length : Int) : Option Bytes :=
  if length < 0 then none
  else some (encode unreserved (if length = 0 then string.takeWhile (· ≠ 0) else string.take length.toNat))

theorem percentEncodes_percentEscape : PercentEncodes percentEscape where
  sized string length hpos _ := by simp [percentEscape, Nat.ne_of_gt hpos]
  zero string := by simp [percentEscape]
  negative string length hneg := by simp [percentEscape, hneg]

/-- `k=a&b` comes back. -/
theorem query_recovers_iff_one :
    Recovers percentEscape ⟨[([0x6B], [0x61, 0x26, 0x62])], List.pairwise_singleton _ _⟩ := by
  refine ((query_recovers_iff percentEncodes_percentEscape).1 _).mpr fun p hp => ?_
  obtain rfl := List.mem_singleton.mp hp
  exact ⟨⟨by decide, by decide, decode_eq_self_iff.mp (by decide)⟩, .inl (by decide)⟩

/-- The key `a=1&b` with the value `2` reads as two entries. -/
theorem key_reads_as_two :
    PercentEncodes percentEscape ∧ ∃ params other : Params, params ≠ other ∧
      params.entries = [([0x61, 0x3D, 0x31, 0x26, 0x62], [0x32])] ∧
      other.entries = [([0x61], [0x31]), ([0x62], [0x32])] ∧
      buildEscapedQuery percentEscape params = buildEscapedQuery percentEscape other ∧
      ¬ Recovers percentEscape params := by
  refine ⟨percentEncodes_percentEscape, ⟨[([0x61, 0x3D, 0x31, 0x26, 0x62], [0x32])], List.pairwise_singleton _ _⟩,
    ⟨[([0x61], [0x31]), ([0x62], [0x32])], by decide⟩, ?_, rfl, rfl, by decide, ?_⟩
  · simp
  · intro h
    exact (separate_of_recovers percentEncodes_percentEscape h _ (List.mem_singleton_self _)).1 (by decide)

end Libws.Network.Http
