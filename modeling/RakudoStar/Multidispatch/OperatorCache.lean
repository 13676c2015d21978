import RakudoStar.Multidispatch.Distance
import RakudoStar.Foundation.LittleEndian
import Mathlib.Data.List.Induction
import Mathlib.Order.Basic

/-!
# The cache of operator dispatches

`Parrot_mmd_multi_dispatch_from_c_args` keeps what it has found under the name and the types of the
arguments. No registration takes anything out of the cache.
-/

namespace RakudoStar.Multidispatch

open List Foundation

/-- The name of an operator: a C string of ASCII. -/
structure OperatorName where
  bytes : List UInt8
  ascii : ∀ byte ∈ bytes, 0 < byte.toNat ∧ byte.toNat < 128

/-- A type is held by an `INTVAL`, and no class has a number of eight bytes. -/
def Held (type : Int) : Prop :=
  -(128 * byteSpan 7 : Nat) ≤ type ∧ type < byteSpan 7

/-- A dispatch, by its name and the types of its arguments. -/
structure OperatorCall where
  name : OperatorName
  types : List Int
  held : ∀ type ∈ types, Held type

def cacheKey (call : OperatorCall) : Option (List UInt8) :=
  if 0 ∈ call.types then none
  else some (call.types.flatMap (signedToBytes 8) ++ call.name.bytes ++ [0])

/-- What a namespace has under a name. -/
inductive Global (Sub : Type)
  | sub (pmc : Sub)
  | multiSub (candidates : List Sub)
  | other

def maybeCandidate {Sub : Type} : Option (Global Sub) → List Sub
  | some (.sub pmc) => [pmc]
  | some (.multiSub candidates) => candidates
  | _ => []

/-- The namespaces of an interpreter and its `op_mmd_cache`. -/
structure Operators (Ns Sub : Type) where
  globals : Ns → List UInt8 → Option (Global Sub)
  cache : List UInt8 → Option Sub

inductive Request (Ns Sub : Type)
  | register (ns : Ns) (name : OperatorName) (pmc : Sub)
  | dispatch (call : OperatorCall)

section

variable {Ns Sub : Type} [DecidableEq Ns]

def Operators.define (s : Operators Ns Sub) (ns : Ns) (name : List UInt8) (candidates : List Sub) :
    Operators Ns Sub :=
  { s with globals := fun other bytes =>
      if other = ns ∧ bytes = name then some (.multiSub candidates) else s.globals other bytes }

/-- `mmd_add_multi_to_namespace`; what is no MultiSub fails the assertion. -/
def addMulti (ns : Ns) (name : OperatorName) (pmc : Sub) (s : Operators Ns Sub) :
    Option (Operators Ns Sub) :=
  match s.globals ns name.bytes with
  | none => some (s.define ns name.bytes [pmc])
  | some (.multiSub candidates) => some (s.define ns name.bytes (candidates ++ [pmc]))
  | _ => none

/-- What the search reads: the classes and signatures, and the namespaces of the types. -/
structure Interpreter (Ns Sub : Type) where
  classes : Classes
  signature : Sub → Signature
  namespaceOf : Int → Option Ns
  multi : Ns

variable (interp : Interpreter Ns Sub)

def findMulti (s : Operators Ns Sub) (call : OperatorCall) : Option Sub :=
  interp.classes.sortCandidates interp.signature call.types
    (maybeCandidate ((call.types.head?.bind interp.namespaceOf).bind fun ns =>
      s.globals ns call.name.bytes) ++ maybeCandidate (s.globals interp.multi call.name.bytes))

/-- `Parrot_mmd_multi_dispatch_from_c_args`, up to the invocation; without a candidate it throws. -/
def dispatch (s : Operators Ns Sub) (call : OperatorCall) : Option Sub × Operators Ns Sub :=
  match (cacheKey call).bind s.cache with
  | some pmc => (some pmc, s)
  | none =>
    match findMulti interp s call with
    | none => (none, s)
    | some pmc =>
      match cacheKey call with
      | none => (some pmc, s)
      | some key => (some pmc, { s with cache := Function.update s.cache key (some pmc) })

/-- A registration puts its candidate in the namespace of the type and in `MULTI`. -/
def step (s : Operators Ns Sub) : Request Ns Sub → Option (Operators Ns Sub)
  | .register ns name pmc => (addMulti ns name pmc s).bind (addMulti interp.multi name pmc)
  | .dispatch call => some (dispatch interp s call).2

def run (s : Operators Ns Sub) (requests : List (Request Ns Sub)) : Option (Operators Ns Sub) :=
  requests.foldlM (step interp) s

end

/-- The high byte of a type is none of a name. -/
theorem exists_high_byte {type : Int} (held : Held type) :
    ∃ byte ∈ signedToBytes 8 type, ¬(0 < byte.toNat ∧ byte.toNat < 128) := by
  rcases held with ⟨low, high⟩
  simp only [byteSpan] at low high
  refine ⟨_, getElem_mem (n := 7) (by simp), ?_⟩
  simp only [signedToBytes, toBytes, byteSpan, getElem_cons_succ, getElem_cons_zero,
    UInt8.toNat_ofNat']
  omega

theorem signedToBytes_injective {type other : Int} (held : Held type) (held' : Held other)
    (same : signedToBytes 8 type = signedToBytes 8 other) : type = other := by
  have back := congrArg (signedOfBytes 8) same
  simp only [signedOfBytes_toBytes, byteSpan, Int.bmod] at back
  simp only [Held, byteSpan] at held held'
  omega

theorem types_not_in_name {type : Int} (held : Held type) {name : OperatorName}
    {rest : List UInt8} : signedToBytes 8 type ++ rest ≠ name.bytes := by
  intro same
  rcases exists_high_byte held with ⟨byte, inType, high⟩
  exact high (name.ascii byte (same ▸ mem_append_left _ inType))

/-- Keys tell where the types end and the name begins. -/
theorem cacheKey_injective {call other : OperatorCall} {key : List UInt8}
    (one : cacheKey call = some key) (two : cacheKey other = some key) : call = other := by
  rcases call with ⟨name, types, held⟩
  rcases other with ⟨name', types', held'⟩
  have same : types.flatMap (signedToBytes 8) ++ name.bytes =
      types'.flatMap (signedToBytes 8) ++ name'.bytes := by
    simp only [cacheKey, Option.ite_none_left_eq_some, Option.some.injEq] at one two
    exact append_cancel_right (one.2.trans two.2.symm)
  have both : types = types' ∧ name.bytes = name'.bytes := by
    clear one two
    induction types generalizing types' with
    | nil =>
      cases types' with
      | nil => exact ⟨rfl, same⟩
      | cons type types' =>
        rw [flatMap_cons, append_assoc] at same
        exact absurd same.symm (types_not_in_name (held' _ mem_cons_self))
    | cons type types ih =>
      rw [flatMap_cons, append_assoc] at same
      cases types' with
      | nil => exact absurd same (types_not_in_name (held _ mem_cons_self))
      | cons type' types' =>
        rw [flatMap_cons, append_assoc] at same
        rcases append_inj same (by simp) with ⟨first, rest⟩
        rcases ih (fun t later => held t (mem_cons_of_mem _ later)) types'
          (fun t later => held' t (mem_cons_of_mem _ later)) rest with ⟨sameTypes, sameName⟩
        have sameType :=
          signedToBytes_injective (held _ mem_cons_self) (held' _ mem_cons_self) first
        exact ⟨by rw [sameType, sameTypes], sameName⟩
  cases name
  cases name'
  cases both.1
  cases both.2
  rfl

section

variable {Ns Sub : Type} [DecidableEq Ns] {interp : Interpreter Ns Sub} {s t : Operators Ns Sub}
  {call other : OperatorCall} {pmc : Sub} {key : List UInt8}

variable (interp s call) in
omit [DecidableEq Ns] in
/-- A dispatch takes what is in the cache, or what the search finds, and may then keep it. -/
theorem dispatch_cases : ((cacheKey call = none ∨ findMulti interp s call = none) ∧
      dispatch interp s call = (findMulti interp s call, s)) ∨
    (∃ key pmc, cacheKey call = some key ∧ s.cache key = some pmc ∧
      dispatch interp s call = (some pmc, s)) ∨
    ∃ key, cacheKey call = some key ∧ s.cache key = none ∧
      dispatch interp s call = (findMulti interp s call,
        { s with cache := Function.update s.cache key (findMulti interp s call) }) := by
  unfold dispatch
  cases keyed : cacheKey call with
  | none => cases findMulti interp s call <;> simp
  | some key =>
    cases cached : s.cache key with
    | some pmc => simp [cached]
    | none => cases found : findMulti interp s call <;> simp [cached]

theorem addMulti_eq_some {ns : Ns} {name : OperatorName} (adds : addMulti ns name pmc s = some t) :
    ∃ candidates, t = s.define ns name.bytes candidates := by
  unfold addMulti at adds
  split at adds
  · exact ⟨_, (Option.some.inj adds).symm⟩
  · exact ⟨_, (Option.some.inj adds).symm⟩
  · cases adds

theorem register_eq_some {ns : Ns} {name : OperatorName}
    (steps : step interp s (.register ns name pmc) = some t) : t.cache = s.cache ∧
      ∀ other bytes, bytes ≠ name.bytes → t.globals other bytes = s.globals other bytes := by
  rcases Option.bind_eq_some_iff.mp steps with ⟨middle, adds, again⟩
  rcases addMulti_eq_some adds with ⟨_, rfl⟩
  rcases addMulti_eq_some again with ⟨_, rfl⟩
  exact ⟨rfl, fun other bytes differs => by simp [Operators.define, differs]⟩

/-- The cache forgets nothing. -/
theorem step_cache {request : Request Ns Sub} (steps : step interp s request = some t)
    (cached : s.cache key = some pmc) : t.cache key = some pmc := by
  cases request with
  | register ns name pmc => rw [(register_eq_some steps).1, cached]
  | dispatch call =>
    cases steps
    rcases dispatch_cases interp s call with
      ⟨-, same⟩ | ⟨_, _, -, -, same⟩ | ⟨other, -, fresh, same⟩
    · rw [same, cached]
    · rw [same, cached]
    · have differs : key ≠ other := by
        rintro rfl
        rw [fresh] at cached
        cases cached
      rw [same]
      exact (Function.update_of_ne differs ..).trans cached

/-- Only a registration of its name changes what the search for a call finds. -/
theorem step_findMulti {request : Request Ns Sub} (steps : step interp s request = some t)
    (others : ∀ ns pmc, request ≠ .register ns call.name pmc) :
    findMulti interp t call = findMulti interp s call := by
  have globals : ∀ ns, t.globals ns call.name.bytes = s.globals ns call.name.bytes := by
    intro ns
    cases request with
    | register other name pmc =>
      refine (register_eq_some steps).2 ns _ fun same => others other pmc ?_
      congr
      cases name
      cases same
      rfl
    | dispatch call =>
      cases steps
      rcases dispatch_cases interp s call with ⟨-, same⟩ | ⟨_, _, -, -, same⟩ | ⟨_, -, -, same⟩ <;>
        rw [same]
  simp only [findMulti, globals]

theorem run_cons {request : Request Ns Sub} {requests : List (Request Ns Sub)} :
    run interp s (request :: requests) = some t ↔
      ∃ middle, step interp s request = some middle ∧ run interp middle requests = some t :=
  Option.bind_eq_some_iff

theorem run_append {first second : List (Request Ns Sub)} :
    run interp s (first ++ second) = some t ↔
      ∃ middle, run interp s first = some middle ∧ run interp middle second = some t := by
  rw [run, foldlM_append]
  exact Option.bind_eq_some_iff

theorem run_cache {requests : List (Request Ns Sub)} (runs : run interp s requests = some t)
    (cached : s.cache key = some pmc) : t.cache key = some pmc := by
  induction requests generalizing s with
  | nil =>
    cases runs
    exact cached
  | cons request requests ih =>
    rcases run_cons.mp runs with ⟨middle, steps, rest⟩
    exact ih rest (step_cache steps cached)

theorem run_findMulti {requests : List (Request Ns Sub)} (runs : run interp s requests = some t)
    (others : ∀ ns pmc, .register ns call.name pmc ∉ requests) :
    findMulti interp t call = findMulti interp s call := by
  induction requests generalizing s with
  | nil =>
    cases runs
    rfl
  | cons request requests ih =>
    rcases run_cons.mp runs with ⟨middle, steps, rest⟩
    rw [ih rest fun ns pmc later => others ns pmc (mem_cons_of_mem _ later)]
    exact step_findMulti steps fun ns pmc same => others ns pmc (same ▸ mem_cons_self)

/-- When the call was dispatched before, the search found the candidate. -/
def FoundBefore (interp : Interpreter Ns Sub) (s : Operators Ns Sub)
    (requests : List (Request Ns Sub)) (call : OperatorCall) (pmc : Sub) : Prop :=
  ∃ before after middle, requests = before ++ .dispatch call :: after ∧
    run interp s before = some middle ∧ findMulti interp middle call = some pmc

theorem run_foundBefore {requests : List (Request Ns Sub)} (empty : ∀ key, s.cache key = none)
    (runs : run interp s requests = some t) (keyed : cacheKey call = some key)
    (cached : t.cache key = some pmc) : FoundBefore interp s requests call pmc := by
  induction requests using List.reverseRecOn generalizing t with
  | nil =>
    cases runs
    rw [empty] at cached
    cases cached
  | append_singleton requests request ih =>
    rcases run_append.mp runs with ⟨middle, first, last⟩
    rcases run_cons.mp last with ⟨_, steps, ⟨⟩⟩
    have earlier (cached : middle.cache key = some pmc) :
        FoundBefore interp s (requests ++ [request]) call pmc := by
      rcases ih first cached with ⟨before, after, start, rfl, reaches, found⟩
      exact ⟨before, after ++ [request], start, by simp, reaches, found⟩
    cases request with
    | register ns name pmc => exact earlier ((register_eq_some steps).1 ▸ cached)
    | dispatch other =>
      cases steps
      rcases dispatch_cases interp middle other with
        ⟨-, same⟩ | ⟨_, _, -, -, same⟩ | ⟨newKey, keyed', -, same⟩
      · exact earlier (by rwa [same] at cached)
      · exact earlier (by rwa [same] at cached)
      rw [same] at cached
      dsimp only at cached
      by_cases sameKey : key = newKey
      · cases sameKey
        cases cacheKey_injective keyed keyed'
        rw [Function.update_self] at cached
        exact ⟨requests, [], middle, rfl, first, cached⟩
      · exact earlier (by rwa [Function.update_of_ne sameKey] at cached)

/-- What the search found once for a name and types without a zero is the answer ever after; the
search would find nothing else as long as the name is not registered again. -/
theorem operatorCache_exact {requests : List (Request Ns Sub)} (empty : ∀ key, s.cache key = none)
    (runs : run interp s requests = some t) (call : OperatorCall) :
    (∀ pmc, (dispatch interp t call).1 = some pmc →
      findMulti interp t call = some pmc ∨ FoundBefore interp s requests call pmc) ∧
    (0 ∉ call.types → ∀ pmc later u, (dispatch interp t call).1 = some pmc →
      run interp t (.dispatch call :: later) = some u → (dispatch interp u call).1 = some pmc) ∧
    ((0 ∈ call.types ∨ ∀ before after ns pmc, requests = before ++ .dispatch call :: after →
        .register ns call.name pmc ∉ after) →
      (dispatch interp t call).1 = findMulti interp t call) := by
  have remembered {u : Operators Ns Sub} {key : List UInt8} {pmc : Sub}
      (keyed : cacheKey call = some key) (cached : u.cache key = some pmc) :
      (dispatch interp u call).1 = some pmc := by
    simp [dispatch, keyed, cached]
  rcases dispatch_cases interp t call with
    ⟨nothing, same⟩ | ⟨key, pmc, keyed, cached, same⟩ | ⟨key, keyed, fresh, same⟩ <;> rw [same]
  · refine ⟨fun _ found => .inl found, fun noZero pmc _ _ found => ?_, fun _ => rfl⟩
    rcases nothing with unkeyed | missed
    · simp [cacheKey, noZero] at unkeyed
    · rw [missed] at found
      cases found
  · have before := run_foundBefore empty runs keyed cached
    refine ⟨?_, ?_, ?_⟩
    · rintro _ ⟨⟩
      exact .inr before
    · rintro _ _ later u ⟨⟩ further
      exact remembered keyed (run_cache further cached)
    rintro (zero | settled)
    · simp [cacheKey, zero] at keyed
    rcases before with ⟨before, after, middle, rfl, reaches, found⟩
    rcases run_append.mp runs with ⟨_, reaches', rest⟩
    cases reaches.symm.trans reaches'
    have others (ns : Ns) (pmc : Sub) : .register ns call.name pmc ∉ .dispatch call :: after := by
      rintro (_ | ⟨_, inAfter⟩)
      exact settled before after ns pmc rfl inAfter
    rw [run_findMulti rest others, found]
  · refine ⟨fun _ found => .inl found, fun _ pmc later u found further => ?_, fun _ => rfl⟩
    rcases run_cons.mp further with ⟨_, ⟨⟩, rest⟩
    refine remembered keyed (run_cache rest ?_)
    rw [same]
    exact (Function.update_self ..).trans found

end

/-- Without inheritance: the candidate `0` takes any PMC, the candidate `1` the class `2`. -/
def twoCandidates : Interpreter Bool Nat where
  classes := ⟨1, 1, 1, 2, fun _ => [], by decide, by decide⟩
  signature := fun pmc => .types [if pmc = 0 then anyPmc else 2]
  namespaceOf := fun _ => none
  multi := false

def noOperators : Operators Bool Nat := ⟨fun _ _ => none, fun _ => none⟩

def addTwo : OperatorCall := ⟨⟨[97], by simp⟩, [2], by simp [Held, byteSpan]⟩

/-- The nearer candidate, registered after a dispatch, is not seen. -/
theorem operatorCache_exact_stale : ∃ t, run twoCandidates noOperators
      [.register true addTwo.name 0, .dispatch addTwo, .register true addTwo.name 1] = some t ∧
    (dispatch twoCandidates t addTwo).1 = some 0 ∧ findMulti twoCandidates t addTwo = some 1 :=
  have first : run twoCandidates noOperators [.register true addTwo.name 0] = some _ := rfl
  ⟨_, rfl, (operatorCache_exact (fun _ => rfl) first addTwo).2.1 (by decide) 0
    [.register true addTwo.name 1] _ rfl rfl, rfl⟩

end RakudoStar.Multidispatch
