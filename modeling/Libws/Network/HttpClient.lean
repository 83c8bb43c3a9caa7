import Mathlib.Order.Defs.LinearOrder
import Libws.Lib.Machine

/-!
# `ws::network::HttpClient`: the options of one handle

Model of `curlRequest`, `reset` and `buildQuery` of `include/ws/network/HttpClient.h` and
`wsNetwork/src/HttpClient.cpp`, with the options of the handle that decide what is sent.

* An option keeps its value until it is set again or the handle is reset.  `CURLOPT_POSTFIELDS` keeps a pointer:
  the query that it points to is gone when `curlRequest` returns, and a request that reads it later has no defined
  outcome.
* Without that option, the body of a POST comes from the read function of the handle.
* `curl_easy_escape` is a parameter.

`requests_own_iff` — the runs whose requests are those of a new handle.
-/

set_option autoImplicit false

namespace Libws.Network.Http

open Libws.Machine

abbrev Bytes := List UInt8

inductive RequestMethod where
  | GET | POST
  deriving DecidableEq, Repr

/-- `std::map<std::string, std::string>`. -/
structure Params where
  entries : List (Bytes × Bytes)
  sorted : entries.Pairwise fun p q => p.1 < q.1

/-- What the pointer of `CURLOPT_POSTFIELDS` points to. -/
inductive PostFields where
  | live (data : Bytes)
  | freed
  deriving DecidableEq, Repr

/-- The options of a handle; `CURLOPT_POSTFIELDSIZE` is -1 until it is set. -/
structure Handle where
  post : Bool
  postFieldSize : Int
  postFields : Option PostFields
  url : Bytes
  deriving DecidableEq, Repr

/-- The body of a request. -/
inductive Body where
  | none
  | fields (data : Bytes)
  | readFunction
  deriving DecidableEq, Repr

structure Sent where
  method : RequestMethod
  url : Bytes
  body : Body
  deriving DecidableEq, Repr

/-- `curl_easy_init`, and `reset`. -/
def Handle.new : Handle := ⟨false, -1, none, []⟩

variable (curl_easy_escape : Bytes → Bytes)

/-- One turn of the loop of `buildQuery`. -/
def buildQueryStep (isNeedEscape : Bool) (acc : Bytes × Nat) (p : Bytes × Bytes) : Bytes × Nat :=
  let outstr := if acc.2 > 0 then acc.1 ++ [0x26] else acc.1
  let outstr := outstr ++ p.1 ++ [0x3D]
  (if isNeedEscape then outstr ++ curl_easy_escape p.2 else outstr ++ p.2, acc.2 + 1)

def buildQuery (params : Params) (isNeedEscape : Bool) : Bytes :=
  (params.entries.foldl (buildQueryStep curl_easy_escape isNeedEscape) ([], 0)).1

/-- The arguments of `curlRequest`. -/
structure Request where
  url : Bytes
  params : Option Params
  method : RequestMethod
  isNeedEscape : Bool

def Request.queryStr (r : Request) : Bytes :=
  match r.params with
  | some params => buildQuery curl_easy_escape params r.isNeedEscape
  | none => []

/-- `curl_easy_perform`: the method and the body that the options ask for. -/
def Handle.perform (h : Handle) : Option Sent :=
  if h.post then
    match h.postFields with
    | none => some ⟨.POST, h.url, .readFunction⟩
    | some (.live data) =>
      some ⟨.POST, h.url, .fields (if 0 ≤ h.postFieldSize then data.take h.postFieldSize.toNat else data)⟩
    | some .freed => none
  else some ⟨.GET, h.url, .none⟩

/-- The options that `curlRequest` sets. -/
def Handle.setOptions (h : Handle) (r : Request) : Handle :=
  let queryStr := r.queryStr curl_easy_escape
  match r.method with
  | .GET => { h with url := if queryStr ≠ [] then r.url ++ [0x3F] ++ queryStr else r.url }
  | .POST =>
    let h := { h with post := true }
    let h := if queryStr ≠ [] then { h with postFieldSize := queryStr.length, postFields := some (.live queryStr) } else h
    { h with url := r.url }

/-- The end of `curlRequest`, where the query is destroyed. -/
def Handle.release (h : Handle) : Handle := { h with postFields := h.postFields.map fun _ => .freed }

def curlRequest (h : Handle) (r : Request) : Option (Handle × Sent) :=
  let h := h.setOptions curl_easy_escape r
  h.perform.map fun sent => (h.release, sent)

/-- What the arguments alone ask for. -/
def Request.own (r : Request) : Sent :=
  let queryStr := r.queryStr curl_easy_escape
  match r.method with
  | .GET => ⟨.GET, if queryStr ≠ [] then r.url ++ [0x3F] ++ queryStr else r.url, .none⟩
  | .POST => ⟨.POST, r.url, if queryStr ≠ [] then .fields queryStr else .readFunction⟩

/-- No map, or an empty one. -/
def Request.NoParams (r : Request) : Prop := ∀ params ∈ r.params, params.entries = []

/-- After a POST comes no GET; after one with parameters, no POST without. -/
def Undisturbed (earlier later : Request) : Prop :=
  earlier.method = .POST → later.method = .POST ∧ (later.NoParams → earlier.NoParams)

/-! ## The query -/

theorem foldl_buildQueryStep_ne_nil (isNeedEscape : Bool) :
    ∀ (entries : List (Bytes × Bytes)) (acc : Bytes × Nat), acc.1 ≠ [] →
      (entries.foldl (buildQueryStep curl_easy_escape isNeedEscape) acc).1 ≠ []
  | [], _, h => h
  | p :: entries, acc, h => by
    refine foldl_buildQueryStep_ne_nil isNeedEscape entries _ ?_
    simp only [buildQueryStep]
    split_ifs <;> simp

theorem queryStr_eq_nil_iff (r : Request) : r.queryStr curl_easy_escape = [] ↔ r.NoParams := by
  unfold Request.queryStr Request.NoParams
  cases r.params with
  | none => simp
  | some params =>
    simp only [Option.mem_def, Option.some.injEq, forall_eq', buildQuery]
    cases params.entries with
    | nil => simp
    | cons p entries =>
      simp only [List.foldl_cons, reduceCtorEq, iff_false]
      refine foldl_buildQueryStep_ne_nil curl_easy_escape r.isNeedEscape entries _ ?_
      simp only [buildQueryStep]
      split_ifs <;> simp

/-! ## Runs -/

/-- What earlier requests left on the handle between two calls. -/
def Settled (h : Handle) : Prop := ∀ fields, h.postFields = some fields → fields = .freed ∧ h.post = true

/-- Nothing that earlier requests left shows in the request. -/
def Compatible (h : Handle) (r : Request) : Prop :=
  (r.method = .GET → h.post = false) ∧ (r.method = .POST → r.NoParams → h.postFields = none)

/-- The handle after a request that is defined. -/
def after (h : Handle) (r : Request) : Handle := (h.setOptions curl_easy_escape r).release

/-- A request that sets its own body. -/
theorem perform_withParams {h : Handle} {r : Request} (hmethod : r.method = .POST)
    (hquery : r.queryStr curl_easy_escape ≠ []) :
    (h.setOptions curl_easy_escape r).perform = some (r.own curl_easy_escape) := by
  simp [Handle.setOptions, Handle.perform, Request.own, hmethod, hquery]

/-- **One request** is what its arguments ask for exactly where nothing of an earlier one shows. -/
theorem curlRequest_own_iff {h : Handle} (hsettled : Settled h) (r : Request) :
    curlRequest curl_easy_escape h r = some (after curl_easy_escape h r, r.own curl_easy_escape) ↔
      Compatible h r := by
  have hperform : curlRequest curl_easy_escape h r = some (after curl_easy_escape h r, r.own curl_easy_escape) ↔
      (h.setOptions curl_easy_escape r).perform = some (r.own curl_easy_escape) := by
    simp [curlRequest, after, Option.map_eq_some_iff]
  rw [hperform, Compatible]
  cases hmethod : r.method with
  | GET =>
    cases hpost : h.post with
    | false => simp [Handle.setOptions, Handle.perform, Request.own, hmethod, hpost]
    | true =>
      have hother : (h.setOptions curl_easy_escape r).perform ≠ some (r.own curl_easy_escape) := by
        simp only [Handle.setOptions, Handle.perform, Request.own, hmethod, hpost, if_pos]
        cases h.postFields with
        | none => simp
        | some fields => cases fields <;> simp
      simp [hother]
  | POST =>
    by_cases hquery : r.queryStr curl_easy_escape = []
    · have hnone := (queryStr_eq_nil_iff curl_easy_escape r).mp hquery
      cases hfields : h.postFields with
      | none => simp [Handle.setOptions, Handle.perform, Request.own, hmethod, hquery, hfields]
      | some fields =>
        obtain ⟨rfl, -⟩ := hsettled fields hfields
        simp [Handle.setOptions, Handle.perform, hmethod, hquery, hfields, hnone]
    · have hparams : ¬ r.NoParams := fun h => hquery ((queryStr_eq_nil_iff curl_easy_escape r).mpr h)
      simp [perform_withParams curl_easy_escape hmethod hquery, hparams]

theorem settled_after {h : Handle} (hsettled : Settled h) (r : Request) : Settled (after curl_easy_escape h r) := by
  intro fields hfields
  obtain ⟨_, hold, rfl⟩ := Option.map_eq_some_iff.mp hfields
  refine ⟨rfl, ?_⟩
  simp only [after, Handle.release]
  cases hmethod : r.method with
  | GET =>
    simp only [Handle.setOptions, hmethod] at hold ⊢
    exact (hsettled _ hold).2
  | POST =>
    simp only [Handle.setOptions, hmethod]
    split_ifs <;> rfl

/-- What a request leaves for the later ones. -/
theorem compatible_after {h : Handle} (r later : Request) :
    Compatible (after curl_easy_escape h r) later ↔ Compatible h later ∧ Undisturbed r later := by
  unfold Compatible Undisturbed after Handle.release Handle.setOptions
  cases hmethod : r.method with
  | GET => simp
  | POST =>
    by_cases hquery : r.queryStr curl_easy_escape = []
    · have hnone := (queryStr_eq_nil_iff curl_easy_escape r).mp hquery
      cases hlater : later.method <;> simp [hquery, hnone]
    · have hparams : ¬ r.NoParams := fun h => hquery ((queryStr_eq_nil_iff curl_easy_escape r).mpr h)
      cases hlater : later.method with
      | GET => simp [hquery, hparams]
      | POST =>
        simp only [hquery, hparams, ne_eq, not_false_eq_true, if_true, Option.map_some, reduceCtorEq, imp_false,
          false_implies, true_and, forall_const]
        exact ⟨fun hnone => ⟨fun h => absurd h hnone, hnone⟩, fun h => h.2⟩

/-- A run from any state between two requests. -/
theorem run_own_iff :
    ∀ (requests : List Request) {h : Handle}, Settled h →
      ((∃ h', runOps (curlRequest curl_easy_escape) h requests =
          some (h', requests.map (·.own curl_easy_escape))) ↔
        (∀ r ∈ requests, Compatible h r) ∧ requests.Pairwise Undisturbed)
  | [], h, _ => by simp [runOps]
  | r :: requests, h, hsettled => by
    have ih := run_own_iff requests (settled_after curl_easy_escape hsettled r)
    have hone := curlRequest_own_iff curl_easy_escape hsettled r
    rw [List.pairwise_cons, List.forall_mem_cons]
    constructor
    · rintro ⟨h', hrun⟩
      obtain ⟨h₁, sent, rest, hfirst, hrest, heq⟩ := runOps_cons.mp hrun
      obtain ⟨rfl, rfl⟩ := List.cons.inj heq
      have hafter : h₁ = after curl_easy_escape h r := by
        obtain ⟨_, -, hpair⟩ := Option.map_eq_some_iff.mp hfirst
        exact (Prod.mk.inj hpair).1.symm
      subst hafter
      obtain ⟨hcompatible, hordered⟩ := ih.mp ⟨h', hrest⟩
      have hboth := fun later hlater => (compatible_after curl_easy_escape r later).mp (hcompatible later hlater)
      exact ⟨⟨hone.mp hfirst, fun later hlater => (hboth later hlater).1⟩, fun later hlater => (hboth later hlater).2,
        hordered⟩
    · rintro ⟨⟨hfirst, hlater⟩, hnext, hordered⟩
      obtain ⟨h', hrest⟩ := ih.mpr ⟨fun later hmem =>
        (compatible_after curl_easy_escape r later).mpr ⟨hlater later hmem, hnext later hmem⟩, hordered⟩
      exact ⟨h', runOps_cons.mpr ⟨_, _, _, hone.mpr hfirst, hrest, rfl⟩⟩

theorem settled_new : Settled .new := fun _ h => by cases h

theorem compatible_new (r : Request) : Compatible .new r := ⟨fun _ => rfl, fun _ _ => rfl⟩

/-- **Requests on one handle.**  In a run from a new or reset handle, every request has the method, the address
and the body that its own arguments ask for if and only if no GET comes after a POST, and no POST without
parameters after one with parameters. -/
theorem requests_own_iff (requests : List Request) :
    (∃ h, runOps (curlRequest curl_easy_escape) .new requests = some (h, requests.map (·.own curl_easy_escape))) ↔
      requests.Pairwise Undisturbed := by
  rw [run_own_iff curl_easy_escape requests settled_new]
  exact and_iff_right fun r _ => compatible_new r

/-- A GET after a POST without parameters is sent as a POST. -/
theorem get_sent_as_post :
    ¬ ∀ (curl_easy_escape : Bytes → Bytes) (requests : List Request),
      ∃ h, runOps (curlRequest curl_easy_escape) .new requests =
        some (h, requests.map (·.own curl_easy_escape)) := by
  intro hall
  obtain ⟨h, hrun⟩ := hall id [⟨[], none, .POST, false⟩, ⟨[], none, .GET, false⟩]
  cases hrun

end Libws.Network.Http
