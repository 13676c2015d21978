import RakudoStar.Metamodel.RoleComposition
import Mathlib.Data.List.Perm.Subperm
import Mathlib.Data.List.Induction

/-!
# What is chosen among the methods on offer

Each method that roles offer under a name is compared with those gathered before, but only the
last comparison counts. The choice depends on the order only where the sole implementation is
offered twice and a stub can come between.
-/

namespace RakudoStar.Metamodel

open List

variable {M : Type} [DecidableEq M] (code : CodeObjects M)

/-- The same method: one object, or two with the same `id`. -/
def sameMethod (meth other : M) : Bool :=
  decide (meth = other) ||
    match code.id meth, code.id other with
    | some address, some otherAddress => decide (address = otherAddress)
    | _, _ => false

/-- Add the methods that are offered, in order, to those gathered. -/
def gather (meths offered : List M) : List M :=
  offered.foldl (fun meths meth => if found code meths meth then meths else meths ++ [meth]) meths

variable {code}

section

variable {meth other : M}

theorem sameMethod_iff : sameMethod code meth other = true ↔
      meth = other ∨ ∃ address, code.id meth = some address ∧ code.id other = some address := by
  unfold sameMethod
  rw [Bool.or_eq_true, decide_eq_true_eq]
  cases first : code.id meth with
  | none => simp
  | some address =>
    cases second : code.id other with
    | none => simp
    | some otherAddress => simp [eq_comm]

@[simp]
theorem sameMethod_refl (meth : M) : sameMethod code meth meth = true :=
  sameMethod_iff.mpr (.inl rfl)

theorem sameMethod_symm (same : sameMethod code meth other = true) :
    sameMethod code other meth = true := by
  rcases sameMethod_iff.mp same with rfl | ⟨address, first, second⟩
  · exact same
  · exact sameMethod_iff.mpr (.inr ⟨address, second, first⟩)

theorem sameMethod_trans {first second third : M} (left : sameMethod code first second = true)
    (right : sameMethod code second third = true) : sameMethod code first third = true := by
  rcases sameMethod_iff.mp left with rfl | ⟨address, firstId, secondId⟩
  · exact right
  rcases sameMethod_iff.mp right with rfl | ⟨otherAddress, secondId', thirdId⟩
  · exact left
  rw [secondId] at secondId'
  cases secondId'
  exact sameMethod_iff.mpr (.inr ⟨address, firstId, thirdId⟩)

theorem yada_of_same (same : sameMethod code meth other = true) :
    code.yada meth = code.yada other := by
  rcases sameMethod_iff.mp same with rfl | ⟨address, first, second⟩
  · rfl
  · exact code.yada_of_id first second

end

section

theorem found_append_singleton (meths : List M) (last meth : M) :
    found code (meths ++ [last]) meth = if meth = last then true else
        match code.id meth, code.id last with
        | some address, some lastAddress => decide (address = lastAddress)
        | _, _ => found code meths meth := by
  rw [found, foldl_append]
  rfl

theorem exists_same_of_found {meths : List M} {meth : M} (isFound : found code meths meth = true) :
    ∃ other ∈ meths, sameMethod code meth other = true := by
  induction meths using List.reverseRecOn with
  | nil => cases isFound
  | append_singleton meths last ih =>
    rw [found_append_singleton] at isFound
    by_cases identical : meth = last
    · exact ⟨last, by simp, by rw [identical]; exact sameMethod_refl last⟩
    rw [if_neg identical] at isFound
    split at isFound
    · rename_i address lastAddress hasId lastHasId
      have equal := of_decide_eq_true isFound
      rw [← equal] at lastHasId
      exact ⟨last, by simp, sameMethod_iff.mpr (.inr ⟨address, hasId, lastHasId⟩)⟩
    · rcases ih isFound with ⟨other, member, same⟩
      exact ⟨other, mem_append_left _ member, same⟩

theorem found_of_uniform {meths : List M} {meth : M}
    (present : ∃ other ∈ meths, sameMethod code meth other = true)
    (uniform : ∀ other ∈ meths, ∀ address otherAddress,
      code.id meth = some address → code.id other = some otherAddress →
        address = otherAddress) : found code meths meth = true := by
  induction meths using List.reverseRecOn with
  | nil =>
    rcases present with ⟨_, absent, _⟩
    cases absent
  | append_singleton meths last ih =>
    rw [found_append_singleton]
    by_cases identical : meth = last
    · rw [if_pos identical]
    rw [if_neg identical]
    split
    · rename_i address lastAddress hasId lastHasId
      exact decide_eq_true (uniform last (by simp) address lastAddress hasId lastHasId)
    rename_i noIds
    apply ih
    · rcases present with ⟨other, member, same⟩
      rcases mem_append.mp member with inMeths | isLast
      · exact ⟨other, inMeths, same⟩
      rw [mem_singleton.mp isLast] at same
      rcases sameMethod_iff.mp same with equal | ⟨address, first, second⟩
      · exact absurd equal identical
      · exact absurd second (noIds address address first)
    · intro other member
      exact uniform other (mem_append_left _ member)

theorem found_behind_apart {meths : List M} {last meth : M} {address lastAddress : Nat}
    (hasId : code.id meth = some address) (lastHasId : code.id last = some lastAddress)
    (apart : address ≠ lastAddress) : found code (meths ++ [last]) meth = false := by
  have differ : meth ≠ last := by
    rintro rfl
    rw [hasId] at lastHasId
    exact apart (Option.some.inj lastHasId)
  rw [found_append_singleton, if_neg differ, hasId, lastHasId]
  exact decide_eq_false apart

end

section

theorem gather_cons (meths : List M) (meth : M) (offered : List M) :
    gather code meths (meth :: offered) =
      gather code (if found code meths meth then meths else meths ++ [meth]) offered := rfl

theorem gather_append (meths first second : List M) :
    gather code meths (first ++ second) = gather code (gather code meths first) second :=
  foldl_append

theorem exists_gather_eq (meths offered : List M) :
    ∃ added, gather code meths offered = meths ++ added ∧ added.Sublist offered := by
  induction offered generalizing meths with
  | nil => exact ⟨[], (append_nil meths).symm, List.Sublist.refl _⟩
  | cons meth offered ih =>
    rw [gather_cons]
    split
    · rcases ih meths with ⟨added, gathered, sublist⟩
      exact ⟨added, gathered, sublist.cons meth⟩
    rcases ih (meths ++ [meth]) with ⟨added, gathered, sublist⟩
    refine ⟨meth :: added, ?_, sublist.cons_cons meth⟩
    rw [gathered, append_assoc, singleton_append]

theorem gather_nil_sublist (offered : List M) : (gather code [] offered).Sublist offered := by
  rcases @exists_gather_eq _ _ code [] offered with ⟨added, gathered, sublist⟩
  rw [gathered]
  exact sublist

variable {offered meths : List M}

theorem gather_covers {meths offered : List M} {meth : M} (member : meth ∈ meths ∨ meth ∈ offered) :
    ∃ other ∈ gather code meths offered, sameMethod code meth other = true := by
  induction offered generalizing meths meth with
  | nil =>
    rcases member with inMeths | absent
    · exact ⟨meth, inMeths, sameMethod_refl meth⟩
    · cases absent
  | cons first offered ih =>
    rw [gather_cons]
    by_cases isFound : found code meths first = true
    · rw [if_pos isFound]
      rcases member with inMeths | inOffered
      · exact ih (.inl inMeths)
      rcases mem_cons.mp inOffered with rfl | later
      · rcases exists_same_of_found isFound with ⟨other, inMeths, same⟩
        rcases ih (.inl inMeths) with ⟨gathered, inGathered, again⟩
        exact ⟨gathered, inGathered, sameMethod_trans same again⟩
      · exact ih (.inr later)
    rw [if_neg isFound]
    apply ih
    rcases member with inMeths | inOffered
    · exact .inl (mem_append_left _ inMeths)
    rcases mem_cons.mp inOffered with rfl | later
    · exact .inl (by simp)
    · exact .inr later

theorem gather_implementations_le (impl : M)
    (sole : ∀ meth ∈ offered, code.yada meth = false → sameMethod code impl meth = true)
    (uniform : ∀ meth ∈ offered, ∀ address otherAddress,
      code.id impl = some address → code.id meth = some otherAddress → address = otherAddress)
    (inMeths : ∀ meth ∈ meths, meth ∈ offered)
    (few : (implementations code meths).length ≤ 1) : ∀ rest, (∀ meth ∈ rest, meth ∈ offered) →
      (implementations code (gather code meths rest)).length ≤ 1 := by
  intro rest inOffered
  induction rest generalizing meths with
  | nil => exact few
  | cons meth rest ih =>
    have restOffered : ∀ other ∈ rest, other ∈ offered := (forall_mem_cons.mp inOffered).2
    have methOffered := inOffered meth mem_cons_self
    rw [gather_cons]
    by_cases isFound : found code meths meth = true
    · rw [if_pos isFound]
      exact ih inMeths few restOffered
    rw [if_neg isFound]
    apply ih _ _ restOffered
    · intro other member
      rcases mem_append.mp member with before | isMeth
      · exact inMeths other before
      · rw [mem_singleton.mp isMeth]
        exact methOffered
    rw [implementations, filter_append, length_append]
    by_cases isStub : code.yada meth = true
    · simpa [isStub, implementations] using few
    have isImpl : code.yada meth = false := by simpa using isStub
    have sameImpl := sole meth methOffered isImpl
    -- An implementation gathered before would have been found.
    have none : (meths.filter fun meth => !code.yada meth) = [] := by
      rw [filter_eq_nil_iff]
      intro other member otherImpl
      apply isFound
      apply found_of_uniform
      · have same := sole other (inMeths other member) (by simpa using otherImpl)
        exact ⟨other, member, sameMethod_trans (sameMethod_symm sameImpl) same⟩
      intro later laterMember address laterAddress hasId laterHasId
      rcases sameMethod_iff.mp sameImpl with rfl | ⟨implAddress, implId, methId⟩
      · exact uniform later (inMeths later laterMember) _ _ hasId laterHasId
      rw [hasId] at methId
      cases methId
      exact uniform later (inMeths later laterMember) _ _ implId laterHasId
    rw [none]
    simp [isImpl]

omit [DecidableEq M] in
theorem mem_implementations {meth : M} :
    meth ∈ implementations code meths ↔ meth ∈ meths ∧ code.yada meth = false := by
  simp [implementations]

theorem exists_implementation {impl : M} (member : impl ∈ offered)
    (isImpl : code.yada impl = false) : ∃ other ∈ implementations code (gather code [] offered),
      sameMethod code impl other = true := by
  rcases @gather_covers _ _ code [] _ _ (.inr member) with ⟨other, gathered, same⟩
  refine ⟨other, mem_implementations.mpr ⟨gathered, ?_⟩, same⟩
  rw [← yada_of_same same]
  exact isImpl

end

section

theorem gather_of_same {first : M} {rest : List M}
    (same : ∀ meth ∈ rest, sameMethod code first meth = true) :
    gather code [] (first :: rest) = [first] := by
  have stays : gather code [first] rest = [first] := by
    induction rest with
    | nil => rfl
    | cons meth rest ih =>
      have sameMeth := same meth mem_cons_self
      have isFound : found code [first] meth = true := by
        apply found_of_uniform
        · exact ⟨first, mem_cons_self, sameMethod_symm sameMeth⟩
        intro other isFirst address otherAddress hasId otherHasId
        rw [mem_singleton.mp isFirst] at otherHasId
        rcases sameMethod_iff.mp sameMeth with rfl | ⟨shared, firstId, methId⟩
        · rw [hasId] at otherHasId
          exact Option.some.inj otherHasId
        rw [hasId] at methId
        rw [otherHasId] at firstId
        exact (Option.some.inj methId).trans (Option.some.inj firstId).symm
      rw [gather_cons, if_pos isFound]
      exact ih (forall_mem_cons.mp same).2
  rw [gather_cons]
  exact stays

theorem two_le_gather_of_apart {offered : List M} {meth other : M} (member : meth ∈ offered)
    (otherMember : other ∈ offered) (apart : sameMethod code meth other = false) :
    2 ≤ (gather code [] offered).length := by
  rcases @gather_covers _ _ code [] _ _ (.inr member) with ⟨first, inFirst, sameFirst⟩
  rcases @gather_covers _ _ code [] _ _ (.inr otherMember) with ⟨second, inSecond, sameSecond⟩
  rcases gathered : gather code [] offered with _ | ⟨only, _ | ⟨next, more⟩⟩
  · rw [gathered] at inFirst
    cases inFirst
  · rw [gathered, mem_singleton] at inFirst inSecond
    rw [inFirst] at sameFirst
    rw [inSecond] at sameSecond
    rw [sameMethod_trans sameFirst (sameMethod_symm sameSecond)] at apart
    cases apart
  · simp

theorem gather_perm_cases {offered other : List M} (perm : offered.Perm other) :
    (gather code [] offered = [] ∧ gather code [] other = []) ∨
      (∃ meth otherMeth, gather code [] offered = [meth] ∧
        gather code [] other = [otherMeth] ∧ sameMethod code meth otherMeth = true) ∨
      (2 ≤ (gather code [] offered).length ∧ 2 ≤ (gather code [] other).length) := by
  rcases offered with _ | ⟨first, rest⟩
  · rw [nil_perm.mp perm]
    exact .inl ⟨rfl, rfl⟩
  rcases other with _ | ⟨otherFirst, otherRest⟩
  · cases perm_nil.mp perm
  by_cases same : ∀ meth ∈ first :: rest, sameMethod code first meth = true
  · have sameFirst := same otherFirst (perm.mem_iff.mpr mem_cons_self)
    right
    left
    refine ⟨first, otherFirst, gather_of_same ?_, gather_of_same ?_, sameFirst⟩
    · exact (forall_mem_cons.mp same).2
    intro meth later
    have member := perm.mem_iff.mpr (mem_cons_of_mem _ later)
    exact sameMethod_trans (sameMethod_symm sameFirst) (same meth member)
  have second : ∃ meth ∈ first :: rest, sameMethod code first meth = false := by
    simpa using same
  rcases second with ⟨meth, member, apart⟩
  exact .inr (.inr ⟨two_le_gather_of_apart mem_cons_self member apart,
    two_le_gather_of_apart (perm.mem_iff.mp mem_cons_self) (perm.mem_iff.mp member) apart⟩)

end

variable (code) in
/-- What is chosen when methods are offered in an order. -/
def choice (offered : List M) : Option (Decision M) :=
  chooseMethod code (gather code [] offered)

variable (code) in
/-- One implementation under two objects, or two stubs. -/
def SameImplementation (meth other : M) : Prop :=
  sameMethod code meth other = true ∨ (code.yada meth = true ∧ code.yada other = true)

variable (code) in
/-- The same is done in both cases. -/
inductive SameChoice : Option (Decision M) → Option (Decision M) → Prop
  | nothing : SameChoice none none
  | add {meth other : M} : SameImplementation code meth other →
      SameChoice (some (.add meth)) (some (.add other))
  | collide : SameChoice (some .collide) (some .collide)

variable (code) in
/-- The sole implementation with an `id` is offered twice, and so is a stub. -/
def Torn (offered : List M) : Prop :=
  ∃ impl ∈ offered, code.yada impl = false ∧ (code.id impl).isSome ∧
    (∀ other ∈ offered, code.yada other = false → sameMethod code impl other = true) ∧
    2 ≤ offered.countP (sameMethod code impl) ∧
    ∃ stub ∈ offered, code.yada stub = true ∧ (code.id stub).isSome

section

variable {offered : List M} {impl : M} {other : List M}

theorem gather_ne_nil (nonempty : offered ≠ []) : gather code [] offered ≠ [] := by
  rcases exists_mem_of_ne_nil offered nonempty with ⟨meth, member⟩
  rcases @gather_covers _ _ code [] _ _ (.inr member) with ⟨other, gathered, _⟩
  exact ne_nil_of_mem gathered

omit [DecidableEq M] in
/-- The number of implementations decides, also where one method is gathered. -/
theorem chooseMethod_eq {meths : List M} (nonempty : meths ≠ []) : chooseMethod code meths =
      match implementations code meths with
      | [] => meths.head?.map Decision.add
      | [meth] => some (.add meth)
      | _ => some .collide := by
  rcases meths with _ | ⟨first, _ | ⟨second, rest⟩⟩
  · exact absurd rfl nonempty
  · cases isStub : code.yada first <;> simp [chooseMethod, implementations, isStub]
  simp only [chooseMethod]
  cases implementations code (first :: second :: rest) with
  | nil => rfl
  | cons meth more => cases more <;> rfl

theorem choice_of_stubs (nonempty : offered ≠ [])
    (stubs : ∀ meth ∈ offered, code.yada meth = true) :
    ∃ meth ∈ offered, choice code offered = some (.add meth) := by
  have gathered := @gather_ne_nil _ _ code _ nonempty
  have none : implementations code (gather code [] offered) = [] := by
    rw [eq_nil_iff_forall_not_mem]
    intro meth member
    rcases mem_implementations.mp member with ⟨inGathered, isImpl⟩
    rw [stubs meth ((gather_nil_sublist offered).subset inGathered)] at isImpl
    cases isImpl
  rw [choice, chooseMethod_eq gathered, none]
  rcases exists_cons_of_ne_nil gathered with ⟨first, rest, gatheredEq⟩
  refine ⟨first, (@gather_nil_sublist _ _ code offered).subset ?_, by rw [gatheredEq]; rfl⟩
  rw [gatheredEq]
  exact mem_cons_self

theorem choice_of_apart {other : M} (member : impl ∈ offered) (otherMember : other ∈ offered)
    (isImpl : code.yada impl = false) (otherIsImpl : code.yada other = false)
    (apart : sameMethod code impl other = false) : choice code offered = some .collide := by
  rcases exists_implementation member isImpl with ⟨first, inFirst, sameFirst⟩
  rcases exists_implementation otherMember otherIsImpl with ⟨second, inSecond, sameSecond⟩
  rw [choice, chooseMethod_eq (gather_ne_nil (ne_nil_of_mem member))]
  split
  · rename_i none
    rw [none] at inFirst
    cases inFirst
  · rename_i meth single
    rw [single, mem_singleton] at inFirst inSecond
    rw [inFirst] at sameFirst
    rw [inSecond] at sameSecond
    rw [sameMethod_trans sameFirst (sameMethod_symm sameSecond)] at apart
    cases apart
  · rfl

theorem choice_of_sole (member : impl ∈ offered) (isImpl : code.yada impl = false)
    (few : (implementations code (gather code [] offered)).length ≤ 1) :
    ∃ meth ∈ offered, sameMethod code impl meth = true ∧
      choice code offered = some (.add meth) := by
  rcases exists_implementation member isImpl with ⟨meth, inImpls, same⟩
  have inOffered : meth ∈ offered :=
    (gather_nil_sublist offered).subset (mem_implementations.mp inImpls).1
  refine ⟨meth, inOffered, same, ?_⟩
  rw [choice, chooseMethod_eq (gather_ne_nil (ne_nil_of_mem member))]
  rcases length_eq_one_iff.mp (Nat.le_antisymm few (length_pos_of_mem inImpls)) with ⟨only, single⟩
  rw [single, mem_singleton] at inImpls
  rw [single, inImpls]

theorem implementations_le_of_not_torn (member : impl ∈ offered) (isImpl : code.yada impl = false)
    (sole : ∀ other ∈ offered, code.yada other = false → sameMethod code impl other = true)
    (whole : ¬Torn code offered) : (implementations code (gather code [] offered)).length ≤ 1 := by
  by_cases twice : 2 ≤ offered.countP (sameMethod code impl)
  · apply gather_implementations_le impl sole _ (by simp) (by simp [implementations])
    · exact fun _ inOffered => inOffered
    intro meth inOffered address otherAddress implId methId
    by_contra differ
    have isStub : code.yada meth = true := by
      by_contra notStub
      rcases sameMethod_iff.mp (sole meth inOffered (by simpa using notStub)) with
        rfl | ⟨shared, first, second⟩
      · rw [implId] at methId
        exact differ (Option.some.inj methId)
      rw [implId] at first
      rw [methId] at second
      exact differ ((Option.some.inj first).trans (Option.some.inj second).symm)
    exact whole ⟨impl, member, isImpl, by rw [implId]; rfl, sole, twice, meth, inOffered,
      isStub, by rw [methId]; rfl⟩
  · calc
      (implementations code (gather code [] offered)).length
          ≤ (implementations code offered).length :=
        ((gather_nil_sublist offered).filter _).length_le
      _ = offered.countP (fun meth => !code.yada meth) := countP_eq_length_filter.symm
      _ ≤ offered.countP (sameMethod code impl) := by
        apply countP_mono_left
        intro meth inOffered notStub
        exact sole meth inOffered (by simpa using notStub)
      _ ≤ 1 := by omega

/-- Unless the sole implementation comes in pieces, the order does not matter. -/
theorem choice_perm (perm : offered.Perm other) (whole : ¬Torn code offered)
    (otherWhole : ¬Torn code other) :
    SameChoice code (choice code offered) (choice code other) := by
  by_cases empty : offered = []
  · subst empty
    rw [nil_perm.mp perm]
    exact .nothing
  have otherSome : other ≠ [] := by
    intro otherEmpty
    rw [otherEmpty] at perm
    exact empty (perm_nil.mp perm)
  by_cases stubs : ∀ meth ∈ offered, code.yada meth = true
  · have otherStubs : ∀ meth ∈ other, code.yada meth = true :=
      fun meth member => stubs meth (perm.mem_iff.mpr member)
    rcases choice_of_stubs empty stubs with ⟨meth, member, chosen⟩
    rcases choice_of_stubs otherSome otherStubs with ⟨otherMeth, otherMember, otherChosen⟩
    rw [chosen, otherChosen]
    exact .add (.inr ⟨stubs meth member, otherStubs otherMeth otherMember⟩)
  have hasImpl : ∃ impl ∈ offered, code.yada impl = false := by
    simpa using stubs
  rcases hasImpl with ⟨impl, member, isImpl⟩
  have otherMember := perm.mem_iff.mp member
  by_cases sole : ∀ meth ∈ offered, code.yada meth = false → sameMethod code impl meth = true
  · have otherSole : ∀ meth ∈ other, code.yada meth = false → sameMethod code impl meth = true :=
      fun meth inOther => sole meth (perm.mem_iff.mpr inOther)
    rcases choice_of_sole member isImpl
        (implementations_le_of_not_torn member isImpl sole whole) with
      ⟨meth, _, same, chosen⟩
    rcases choice_of_sole otherMember isImpl
        (implementations_le_of_not_torn otherMember isImpl otherSole otherWhole) with
      ⟨otherMeth, _, otherSame, otherChosen⟩
    rw [chosen, otherChosen]
    exact .add (.inl (sameMethod_trans (sameMethod_symm same) otherSame))
  have second : ∃ meth ∈ offered, code.yada meth = false ∧ sameMethod code impl meth = false := by
    simpa using sole
  rcases second with ⟨meth, inOffered, methIsImpl, apart⟩
  rw [choice_of_apart member inOffered isImpl methIsImpl apart,
    choice_of_apart otherMember (perm.mem_iff.mp inOffered) isImpl methIsImpl apart]
  exact .collide

theorem Torn.perm (perm : offered.Perm other) (torn : Torn code offered) : Torn code other := by
  rcases torn with ⟨impl, member, isImpl, hasId, sole, twice, stub, stubMember, isStub⟩
  refine ⟨impl, perm.mem_iff.mp member, isImpl, hasId, ?_, ?_, stub, perm.mem_iff.mp stubMember,
    isStub⟩
  · exact fun meth inOther => sole meth (perm.mem_iff.mpr inOther)
  · rwa [← perm.countP_eq]

theorem choice_of_front (member : impl ∈ offered) (isImpl : code.yada impl = false)
    (sole : ∀ other ∈ offered, code.yada other = false → sameMethod code impl other = true) :
    ∃ meth, choice code (offered.filter (sameMethod code impl) ++
      offered.filter fun meth => !sameMethod code impl meth) = some (.add meth) := by
  have front : ∀ meth ∈ offered.filter (sameMethod code impl), sameMethod code impl meth = true :=
    fun meth inFront => (mem_filter.mp inFront).2
  have fewInFront : (implementations code
      (gather code [] (offered.filter (sameMethod code impl)))).length ≤ 1 := by
    apply gather_implementations_le impl _ _ (by simp) (by simp [implementations])
    · exact fun _ inFront => inFront
    · exact fun meth inFront _ => front meth inFront
    intro meth inFront address otherAddress implId methId
    rcases sameMethod_iff.mp (front meth inFront) with rfl | ⟨shared, first, second⟩
    · rw [implId] at methId
      exact Option.some.inj methId
    rw [implId] at first
    rw [methId] at second
    exact (Option.some.inj first).trans (Option.some.inj second).symm
  rcases @exists_gather_eq _ _ code (gather code [] (offered.filter (sameMethod code impl)))
      (offered.filter fun meth => !sameMethod code impl meth) with ⟨added, gathered, sublist⟩
  have stubsBehind : implementations code added = [] := by
    rw [eq_nil_iff_forall_not_mem]
    intro meth inImpls
    rcases mem_implementations.mp inImpls with ⟨inAdded, methIsImpl⟩
    rcases mem_filter.mp (sublist.subset inAdded) with ⟨inOffered, apart⟩
    rw [sole meth inOffered methIsImpl] at apart
    cases apart
  have few : (implementations code (gather code [] (offered.filter (sameMethod code impl) ++
        offered.filter fun meth => !sameMethod code impl meth))).length ≤ 1 := by
    have split : implementations code (gather code [] (offered.filter (sameMethod code impl) ++
          offered.filter fun meth => !sameMethod code impl meth)) =
        implementations code (gather code [] (offered.filter (sameMethod code impl))) ++
          implementations code added := by
      rw [gather_append, gathered]
      exact filter_append _ _
    rw [split, stubsBehind, append_nil]
    exact fewInFront
  have inFront : impl ∈ offered.filter (sameMethod code impl) :=
    mem_filter.mpr ⟨member, sameMethod_refl impl⟩
  rcases choice_of_sole (mem_append_left _ inFront) isImpl few with ⟨meth, _, _, chosen⟩
  exact ⟨meth, chosen⟩

/-- With a stub between two objects of it, an implementation collides with
itself. -/
theorem choice_of_between {again stub : M} {address stubAddress : Nat} (rest : List M)
    (isImpl : code.yada impl = false) (againIsImpl : code.yada again = false)
    (implId : code.id impl = some address) (againId : code.id again = some address)
    (stubId : code.id stub = some stubAddress) (apart : address ≠ stubAddress) :
    choice code (impl :: stub :: again :: rest) = some .collide := by
  have first : found code [] impl = false := rfl
  have second : found code [impl] stub = false :=
    @found_behind_apart _ _ code [] _ _ _ _ stubId implId apart.symm
  have third : found code [impl, stub] again = false :=
    @found_behind_apart _ _ code [impl] _ _ _ _ againId stubId apart
  rcases @exists_gather_eq _ _ code [impl, stub, again] rest with ⟨added, gathered, _⟩
  have gatheredEq : gather code [] (impl :: stub :: again :: rest) =
      [impl, stub, again] ++ added := by
    rw [gather_cons, first, if_neg (by simp), nil_append, gather_cons, second,
      if_neg (by simp), singleton_append, gather_cons, third, if_neg (by simp)]
    exact gathered
  rw [choice, chooseMethod_eq (by rw [gatheredEq]; simp), gatheredEq]
  have front : implementations code ([impl, stub, again] ++ added) =
      impl :: (implementations code [stub] ++ again :: implementations code added) := by
    cases isStub : code.yada stub <;> simp [implementations, isImpl, againIsImpl, isStub]
  rw [front]
  cases implementations code [stub] <;> rfl

/-- Torn offers come in an order that adds the implementation and in one that collides. -/
theorem exists_perms_of_torn (torn : Torn code offered) :
    ∃ first second : List M, first.Perm offered ∧ second.Perm offered ∧
      (∃ meth, choice code first = some (.add meth)) ∧ choice code second = some .collide := by
  rcases torn with ⟨impl, member, isImpl, hasId, sole, twice, stub, stubMember, isStub, stubHasId⟩
  rcases Option.isSome_iff_exists.mp hasId with ⟨address, implId⟩
  rcases Option.isSome_iff_exists.mp stubHasId with ⟨stubAddress, stubId⟩
  have parted : (offered.filter (sameMethod code impl) ++
      offered.filter fun meth => !sameMethod code impl meth).Perm offered :=
    filter_append_perm _ offered
  have apart : address ≠ stubAddress := by
    rintro rfl
    rw [code.yada_of_id implId stubId, isStub] at isImpl
    cases isImpl
  have stubApart : sameMethod code impl stub = false := by
    rw [Bool.eq_false_iff]
    intro same
    rw [yada_of_same same, isStub] at isImpl
    cases isImpl
  rw [countP_eq_length_filter] at twice
  rcases front : offered.filter (sameMethod code impl) with _ | ⟨one, _ | ⟨two, more⟩⟩
  · rw [front] at twice
    simp at twice
  · rw [front] at twice
    simp at twice
  have inBack : stub ∈ offered.filter fun meth => !sameMethod code impl meth :=
    mem_filter.mpr ⟨stubMember, by simp [stubApart]⟩
  rcases append_of_mem inBack with ⟨before, behind, back⟩
  have same : ∀ meth ∈ [one, two], code.id meth = some address ∧ code.yada meth = false := by
    intro meth isOne
    have inFront : meth ∈ offered.filter (sameMethod code impl) := by
      rw [front]
      exact mem_of_mem_take (i := 2) (by simpa using isOne)
    have sameImpl := (mem_filter.mp inFront).2
    refine ⟨?_, by rw [← yada_of_same sameImpl]; exact isImpl⟩
    rcases sameMethod_iff.mp sameImpl with rfl | ⟨shared, implShared, methShared⟩
    · exact implId
    · rw [implId] at implShared
      rw [methShared, implShared]
  refine ⟨_, one :: stub :: two :: (more ++ (before ++ behind)), parted, ?_,
    choice_of_front member isImpl sole, ?_⟩
  · apply List.Perm.trans _ parted
    rw [front, back]
    calc
      (one :: stub :: two :: (more ++ (before ++ behind))).Perm
          (one :: two :: stub :: (more ++ (before ++ behind))) :=
        (List.Perm.swap _ _ _).cons one
      List.Perm _ (one :: two :: (more ++ (before ++ stub :: behind))) := by
        apply List.Perm.cons
        apply List.Perm.cons
        rw [← append_assoc, ← append_assoc]
        exact perm_middle.symm
  · have sameOne := same one (by simp)
    have sameTwo := same two (by simp)
    exact choice_of_between _ sameOne.2 sameTwo.2 sameOne.1 sameTwo.1 stubId apart

end

end RakudoStar.Metamodel
