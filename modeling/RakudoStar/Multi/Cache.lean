import RakudoStar.Multi.Candidate

/-!
# The multi-dispatch cache

For each arity the cache holds a flat array of argument identifiers, read in chunks, next to an
array of results: an association list.
-/

namespace RakudoStar.Multi

open List

variable {Ty Val Sub : Type} {entries : List (List Nat × Sub)}

def mdCacheMaxArity : Nat := 4

def mdCacheMaxEntries : Nat := 16

structure ArityCache (Sub : Type) where
  numEntries : Nat
  typeIds : List Nat
  results : List Sub

/-- `Rakudo_md_cache`, with the arity caches from zero. -/
structure Cache (Ty Val Sub : Type) where
  candidates : CandidateList Ty Val Sub
  arityCaches : Nat → ArityCache Sub
  zeroArity : Option Sub

/-- The zeroed cache around a candidate list. -/
def Cache.empty (candidates : CandidateList Ty Val Sub) : Cache Ty Val Sub where
  candidates
  arityCaches _ := ⟨0, [], []⟩
  zeroArity := none

section

variable (interp : Interp Ty Val)

/-- An argument's entry: its type's identifier with the concreteness bit, or its kind. -/
def argId : BindVal Val → Nat
  | .obj object =>
    let arg := interp.decontainerize object
    interp.typeCacheId (interp.what arg) ||| (if interp.isConcrete arg then 1 else 0)
  | .int _ => (NativeKind.int.code <<< 1) ||| 1
  | .num _ => (NativeKind.num.code <<< 1) ||| 1
  | .str _ => (NativeKind.str.code <<< 1) ||| 1

/-- The argument tuple of a call. -/
def argTup (positionals : List (BindVal Val)) : List Nat :=
  positionals.map (argId interp)

/-- What the dispatcher sees of an argument. -/
inductive ArgView (Ty : Type)
  | native (kind : NativeKind)
  | object (type : Ty) (concrete : Bool)

def argView : BindVal Val → ArgView Ty
  | .obj object =>
    .object (interp.what (interp.decontainerize object))
      (interp.isConcrete (interp.decontainerize object))
  | .int _ => .native .int
  | .num _ => .native .num
  | .str _ => .native .str

def ArgView.id : ArgView Ty → Nat
  | .native kind => 2 * kind.code + 1
  | .object type concrete => interp.typeCacheId type + if concrete then 1 else 0

theorem even_or_one {id : Nat} (even : id % 2 = 0) : id ||| 1 = id + 1 := by
  have bits : id = 2 ^ 1 * (id / 2) := by omega
  rw [bits]
  exact (Nat.two_pow_add_eq_or_of_lt (by omega) _).symm

variable {interp}

theorem argId_eq_id (ids : interp.CacheIds) (value : BindVal Val) :
    argId interp value = (argView interp value).id interp := by
  cases value with
  | obj object =>
    cases concrete : interp.isConcrete (interp.decontainerize object) with
    | false => simp [argId, argView, ArgView.id, concrete]
    | true => simp [argId, argView, ArgView.id, concrete, even_or_one (ids.even _)]
  | _ => rfl

theorem ArgView.id_injective (ids : interp.CacheIds) : Function.Injective (ArgView.id interp) := by
  have apart : ∀ type concrete kind,
      (ArgView.object type concrete).id interp ≠ (ArgView.native kind).id interp := by
    intro type concrete kind equal
    have even := ids.even type
    have apart := ids.apart type kind
    cases concrete <;> simp only [ArgView.id, if_true, if_false, Bool.false_eq_true]
      at equal <;> omega
  intro first second equal
  cases first with
  | native kind =>
    cases second with
    | native other =>
      simp only [ArgView.id] at equal
      rw [NativeKind.code_injective (by omega : kind.code = other.code)]
    | object type concrete => exact absurd equal.symm (apart type concrete kind)
  | object type concrete =>
    cases second with
    | native kind => exact absurd equal (apart type concrete kind)
    | object otherType otherConcrete =>
      have even := ids.even type
      have otherEven := ids.even otherType
      simp only [ArgView.id] at equal
      have sameIds : interp.typeCacheId type = interp.typeCacheId otherType := by
        cases concrete <;> cases otherConcrete <;>
          simp only [if_true, if_false, Bool.false_eq_true] at equal <;> omega
      cases ids.injective sameIds
      cases concrete <;> cases otherConcrete <;>
        simp only [if_true, if_false, Bool.false_eq_true] at equal
      · rfl
      · omega
      · omega
      · rfl

theorem map_argView_of_argTup (ids : interp.CacheIds) {first second : List (BindVal Val)}
    (sameTuple : argTup interp first = argTup interp second) :
    first.map (argView interp) = second.map (argView interp) := by
  have viewIds : ∀ positionals : List (BindVal Val), argTup interp positionals =
      (positionals.map (argView interp)).map (ArgView.id interp) := by
    intro positionals
    simp only [argTup, map_map]
    exact map_congr_left fun value _ => argId_eq_id ids value
  rw [viewIds, viewIds] at sameTuple
  exact (ArgView.id_injective ids).list_map sameTuple

end

section

/-- Are the identifiers from a position on those of the argument tuple? -/
def tupleAt (typeIds : List Nat) (tPos : Nat) (argTup : List Nat) : Bool :=
  (List.range argTup.length).all fun j => typeIds[tPos + j]? == argTup[j]?

/-- Look through a number of entries, from the `i`th on. -/
def lookThrough (cache : ArityCache Sub) (argTup : List Nat) : Nat → Nat → Nat → Option Sub
  | 0, _, _ => none
  | entries + 1, i, tPos =>
    if tupleAt cache.typeIds tPos argTup then
      cache.results[i]?
    else
      lookThrough cache argTup entries (i + 1) (tPos + argTup.length)

def findInCache (interp : Interp Ty Val) (cache : Cache Ty Val Sub)
    (positionals : List (BindVal Val)) : Option Sub :=
  if positionals.isEmpty then
    cache.zeroArity
  else
    let arityCache := cache.arityCaches (positionals.length - 1)
    lookThrough arityCache (argTup interp positionals) arityCache.numEntries 0 0

/-- Write an entry behind the present ones. -/
def ArityCache.add (cache : ArityCache Sub) (argTup : List Nat) (result : Sub) :
    ArityCache Sub where
  numEntries := cache.numEntries + 1
  typeIds := cache.typeIds.take (cache.numEntries * argTup.length) ++ argTup
  results := cache.results.take cache.numEntries ++ [result]

/-- `add_to_cache`. A saturated cache is left alone. -/
def addToCache (interp : Interp Ty Val) (cache : Cache Ty Val Sub)
    (positionals : List (BindVal Val)) (result : Sub) : Cache Ty Val Sub :=
  if positionals.isEmpty then
    { cache with zeroArity := some result }
  else
    let arityCache := cache.arityCaches (positionals.length - 1)
    if arityCache.numEntries = mdCacheMaxEntries then
      cache
    else
      { cache with
        arityCaches := Function.update cache.arityCaches (positionals.length - 1)
          (arityCache.add (argTup interp positionals) result) }

end

namespace ArityCache

/-- The arrays hold these entries, all tuples being of one width. -/
structure Represents (cache : ArityCache Sub) (numArgs : Nat)
    (entries : List (List Nat × Sub)) : Prop where
  widths : ∀ entry ∈ entries, entry.1.length = numArgs
  numEntries : cache.numEntries = entries.length
  typeIds : cache.typeIds = entries.flatMap Prod.fst
  results : cache.results = entries.map Prod.snd

theorem represents_nil (numArgs : Nat) : (⟨0, [], []⟩ : ArityCache Sub).Represents numArgs [] where
  widths := by simp
  numEntries := rfl
  typeIds := rfl
  results := rfl

end ArityCache

theorem length_flatMap_of_widths {numArgs : Nat}
    (widths : ∀ entry ∈ entries, entry.1.length = numArgs) :
    (entries.flatMap Prod.fst).length = entries.length * numArgs := by
  induction entries with
  | nil => simp
  | cons entry rest ih =>
    rw [flatMap_cons, length_append, widths entry (by simp), ih (forall_mem_cons.mp widths).2,
      length_cons, Nat.add_mul, Nat.one_mul, Nat.add_comm]

theorem tupleAt_append (before row after argTup : List Nat) (width : row.length = argTup.length) :
    tupleAt (before ++ (row ++ after)) before.length argTup = true ↔ row = argTup := by
  have cell : ∀ j < argTup.length, (before ++ (row ++ after))[before.length + j]? = row[j]? := by
    intro j bound
    rw [getElem?_append_right (by omega), Nat.add_sub_cancel_left, getElem?_append_left (by omega)]
  simp only [tupleAt, all_eq_true, mem_range, beq_iff_eq]
  constructor
  · intro cells
    refine ext_getElem? fun j => ?_
    by_cases bound : j < argTup.length
    · rw [← cell j bound, cells j bound]
    · rw [getElem?_eq_none (by omega), getElem?_eq_none (by omega)]
  · rintro rfl j bound
    exact cell j bound

theorem lookThrough_eq_find? {cache : ArityCache Sub} {argTup : List Nat}
    {before entries : List (List Nat × Sub)}
    (represents : cache.Represents argTup.length (before ++ entries)) :
    lookThrough cache argTup entries.length before.length (before.length * argTup.length) =
      (entries.find? fun entry => entry.1 = argTup).map Prod.snd := by
  induction entries generalizing before with
  | nil => rfl
  | cons entry rest ih =>
    have offset : (before.flatMap Prod.fst).length = before.length * argTup.length :=
      length_flatMap_of_widths fun earlier inBefore =>
        represents.widths earlier (mem_append_left _ inBefore)
    have width : entry.1.length = argTup.length := represents.widths entry (by simp)
    have here : tupleAt cache.typeIds (before.length * argTup.length) argTup =
        true ↔ entry.1 = argTup := by
      rw [represents.typeIds, flatMap_append, flatMap_cons, ← offset]
      exact tupleAt_append _ _ _ _ width
    have result : cache.results[before.length]? = some entry.2 := by
      rw [represents.results, map_append, map_cons, getElem?_append_right (by simp)]
      simp
    have continued := @ih (before ++ [entry]) (by simpa using represents)
    rw [length_append, length_singleton, Nat.add_mul, Nat.one_mul] at continued
    by_cases same : entry.1 = argTup
    · simp [lookThrough, here.mpr same, same, result]
    have differs : tupleAt cache.typeIds (before.length * argTup.length) argTup = false := by
      simpa using mt here.mp same
    simp [lookThrough, differs, same, continued]

theorem ArityCache.Represents.add {cache : ArityCache Sub} {argTup : List Nat} (result : Sub)
    (represents : cache.Represents argTup.length entries) :
    (cache.add argTup result).Represents argTup.length (entries ++ [(argTup, result)]) := by
  have cells : cache.typeIds.take (cache.numEntries * argTup.length) = cache.typeIds := by
    rw [take_of_length_le]
    rw [represents.typeIds, length_flatMap_of_widths represents.widths, represents.numEntries]
  have values : cache.results.take cache.numEntries = cache.results := by
    rw [take_of_length_le]
    rw [represents.results, represents.numEntries, length_map]
  exact
    { widths := by
        intro entry mem
        rcases mem_append.mp mem with present | new
        · exact represents.widths entry present
        · rw [mem_singleton.mp new]
      numEntries := by simp [ArityCache.add, represents.numEntries]
      typeIds := by
        rw [ArityCache.add, cells, represents.typeIds, flatMap_append]
        simp
      results := by
        rw [ArityCache.add, values, represents.results, map_append]
        simp }

end RakudoStar.Multi
