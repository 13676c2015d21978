import RakudoStar.Strings.Search

/-!
# The search in memory

The search looks at places where the search string no longer fits, and at one byte behind the
string. It is exact if that does no harm.
-/

namespace RakudoStar.Strings

open Foundation List RakudoStar.Except Nat

variable {memory needle rest : List UInt8} {first : UInt8}

section

variable {position count : Nat}

theorem memcmp_same (begins : needle <+: memory) :
    memcmp memory needle needle.length 0 = .ok 0 := by
  obtain ⟨after, rfl⟩ := begins
  have passed := memcmp_common [] needle after [] 0
  simp only [nil_append, append_nil, length_nil, add_zero] at passed
  rw [passed, memcmp]

theorem memcmp_other (noNeedle : ¬needle <+: memory) (noMemory : ¬memory <+: needle) :
    ∃ sign : Int, sign ≠ 0 ∧ memcmp memory needle needle.length 0 = .ok sign := by
  obtain ⟨common, l, r, left, right, rfl, rfl, differ⟩ := exists_difference noMemory noNeedle
  have passed := memcmp_common [] common (l :: left) (r :: right) (right.length + 1)
  obtain ⟨sign, nonzero, run⟩ := memcmp_differ common left right differ right.length
  rw [nil_append, length_nil, run] at passed
  refine ⟨sign, nonzero, ?_⟩
  rw [length_append, length_cons]
  exact passed

theorem memcmp_outside (noNeedle : ¬needle <+: memory) (ends : memory <+: needle) :
    ∃ p, memcmp memory needle needle.length 0 = .error (.outside p) := by
  obtain ⟨after, rfl⟩ := ends
  cases after with
  | nil => exact absurd (by rw [append_nil]) noNeedle
  | cons r after =>
    have passed := memcmp_common [] memory [] (r :: after) (after.length + 1)
    rw [nil_append, length_nil, append_nil, memcmp] at passed
    refine ⟨memory.length, ?_⟩
    rw [length_append, length_cons, passed]
    have outside : read memory memory.length = .error (.outside memory.length) := by
      rw [read, getElem?_eq_none le_rfl]
    rw [outside]
    rfl

theorem read_beq_iff : (read memory position).map (· == first) = .ok true ↔
    memory[position]? = some first := by
  unfold read
  cases memory[position]? with
  | none | some => simp [Except.map]

theorem read_beq_answers_iff : (∃ answer, (read memory position).map (· == first) = .ok answer) ↔
    position < memory.length := by
  unfold read
  by_cases inside : position < memory.length
  · simp [inside, Except.map]
  · simp [inside, Except.map]

theorem memchr_found {h : Nat}
    (hit : IsFirst (fun p => memory[p]? = some first) position (position + count) h)
    (inside : h < position + count) : memchr memory first position count = .ok (some h) := by
  have stored : h < memory.length := by
    obtain ⟨there, -⟩ := List.getElem?_eq_some_iff.mp (hit.here inside)
    exact there
  obtain ⟨r, run⟩ := (@firstFrom_ends_iff _ (fun p => (read memory p).map (· == first)) _ _ _
      (rfl : position + count = position + count)).mpr fun p atLeast _ earlier => by
    apply read_beq_answers_iff.mpr
    by_cases before : p ≤ h
    · exact lt_of_le_of_lt before stored
    · exact absurd (read_beq_iff.mpr (hit.here inside))
        (earlier h hit.atLeast (Nat.lt_of_not_le before))
  have same : r = h := ((isFirst_of_firstFrom rfl run).congr fun _ _ _ => read_beq_iff).unique hit
  rw [memchr, run, ok_bind, same, if_pos inside]

section

variable (without : ∀ p, position ≤ p → p < position + count → memory[p]? ≠ some first)

include without

theorem memchr_none (stored : position + count ≤ memory.length) :
    memchr memory first position count = .ok none := by
  obtain ⟨r, run⟩ := (@firstFrom_ends_iff _ (fun p => (read memory p).map (· == first)) _ _ _
      (rfl : position + count = position + count)).mpr fun p _ below _ =>
    read_beq_answers_iff.mpr (below.trans_le stored)
  have same : r = position + count :=
    ((isFirst_of_firstFrom rfl run).congr fun _ _ _ => read_beq_iff).unique
      (IsFirst.at_end (Nat.le_add_right _ _) without)
  rw [memchr, run, ok_bind, same, if_neg (lt_irrefl _)]

theorem memchr_outside (beyond : memory.length < position + count)
    (upTo : position ≤ memory.length) :
    ∃ fault, memchr memory first position count = .error fault := by
  cases run : firstFrom (fun p => (read memory p).map (· == first)) (position + count) count
      position with
  | error fault =>
    refine ⟨fault, ?_⟩
    rw [memchr, run]
    rfl
  | ok r =>
    have answers := (firstFrom_ends_iff rfl).mp ⟨r, run⟩ memory.length upTo beyond
      fun q atLeast below hit =>
        without q atLeast (below.trans beyond) (read_beq_iff.mp hit)
    exact absurd (read_beq_answers_iff.mp answers) (lt_irrefl _)

end

end

/-- Memory and search string differ at a byte of it that is in memory. -/
def Differs (memory needle : List UInt8) (position : Nat) : Prop :=
  ¬needle <+: memory.drop position ∧ ¬memory.drop position <+: needle

section

variable {strLen strPos lenRemain rounds : Nat}

theorem differs_of_not_occurs {p : Nat} (fails : ¬Occurs needle memory p)
    (room : p + needle.length ≤ memory.length) : Differs memory needle p := by
  refine ⟨fails, fun ends => fails ?_⟩
  have length := ends.length_le
  rw [length_drop] at length
  have same := ends.eq_of_length_le (by rw [length_drop]; omega)
  rw [Occurs, same]

theorem byteIndexLoop_finds {p : Nat} (shape : needle = first :: rest)
    (inMemory : strLen ≤ memory.length) (fits : p + needle.length ≤ strLen)
    (occurs : Occurs needle memory p) (from_ : strPos ≤ p)
    (before : ∀ q, strPos ≤ q → q < p → ¬Occurs needle memory q)
    (reaches : strLen ≤ strPos + lenRemain) (enough : p < strPos + rounds) :
    byteIndexLoop memory needle first strLen rounds strPos lenRemain = .ok p := by
  induction rounds generalizing strPos lenRemain with
  | zero => exact absurd enough from_.not_gt
  | succ rounds ih =>
    have positive : 0 < needle.length := by rw [shape]; exact succ_pos _
    obtain ⟨h, hit⟩ := @IsFirst.exists (fun q => memory[q]? = some first) _ strPos
      (strPos + lenRemain) (Nat.le_add_right _ _)
    have hitHere : memory[p]? = some first := (shape ▸ occurs).head
    have upTo : h ≤ p := by
      apply not_lt.mp
      intro beyond
      exact hit.before p from_ beyond hitHere
    rw [byteIndexLoop, memchr_found hit (by omega), ok_bind]
    dsimp only
    rcases lt_or_eq_of_le upTo with earlier | rfl
    · obtain ⟨noNeedle, noMemory⟩ := differs_of_not_occurs (before h hit.atLeast earlier) (by omega)
      obtain ⟨sign, nonzero, run⟩ := memcmp_other noNeedle noMemory
      rw [run, ok_bind, if_neg nonzero, if_neg (by omega)]
      have later : strPos ≤ h := hit.atLeast
      exact ih (by omega) (fun q beyond below => before q (by omega) below) (by omega) (by omega)
    · rw [memcmp_same occurs, ok_bind, if_pos rfl]

/-- What the search finds behind the last place does no harm. -/
def Harmless (memory needle : List UInt8) (reach h : Nat) : Prop :=
  if h < reach then Differs memory needle h else reach ≤ memory.length

theorem byteIndexLoop_none {reach last h : Nat} (shape : needle = first :: rest)
    (inMemory : strLen ≤ memory.length) (inside : strPos ≤ strLen)
    (nowhere : ∀ q, strPos ≤ q → q + needle.length ≤ strLen → ¬Occurs needle memory q)
    (reaches : strPos + lenRemain = reach) (near : reach = strLen ∨ reach = strLen + 1)
    (extended : last = strLen + 1 ∧ (reach = strLen + 1 ∨
        ∃ g, strPos ≤ g ∧ g + needle.length ≤ strLen ∧ memory[g]? = some first) ∨
      last = reach ∧ ∀ g, strPos ≤ g → g + needle.length ≤ strLen → memory[g]? ≠ some first)
    (stray : IsFirst (fun q => memory[q]? = some first)
      (max strPos (strLen + 1 - needle.length)) last h) (enough : strLen < strPos + rounds) :
    byteIndexLoop memory needle first strLen rounds strPos lenRemain = .ok (-1) ↔
      Harmless memory needle last h := by
  induction rounds generalizing strPos lenRemain reach with
  | zero => exact absurd enough inside.not_gt
  | succ rounds ih =>
    have positive : 0 < needle.length := by rw [shape]; exact succ_pos _
    obtain ⟨h1, hit⟩ := @IsFirst.exists (fun q => memory[q]? = some first) _ strPos reach (by omega)
    subst reaches
    -- without a hit that fits, the search looks no further than it did
    have stays : (∀ g, strPos ≤ g → g + needle.length ≤ strLen → memory[g]? ≠ some first) →
        last = strPos + lenRemain := by
      intro without
      rcases extended with ⟨rfl, whole | ⟨g, from_, fits, found⟩⟩ | ⟨rfl, -⟩
      · exact whole.symm
      · exact absurd found (without g from_ fits)
      · rfl
    rw [byteIndexLoop]
    rcases lt_or_eq_of_le hit.atMost with below | none
    · rw [memchr_found hit below, ok_bind]
      dsimp only
      by_cases fits : h1 + needle.length ≤ strLen
      · obtain ⟨noNeedle, noMemory⟩ :=
          differs_of_not_occurs (nowhere h1 hit.atLeast fits) (by omega)
        obtain ⟨sign, nonzero, run⟩ := memcmp_other noNeedle noMemory
        have further : last = strLen + 1 := by
          rcases extended with ⟨same, -⟩ | ⟨-, without⟩
          · exact same
          · exact absurd (hit.here below) (without h1 hit.atLeast fits)
        have later : strPos ≤ h1 := hit.atLeast
        have low : max strPos (strLen + 1 - needle.length) =
            max (h1 + 1) (strLen + 1 - needle.length) := by omega
        rw [low] at stray
        rw [run, ok_bind, if_neg nonzero, if_neg (by omega)]
        exact ih (by omega) (fun q beyond => nowhere q (by omega)) (by omega)
          (.inr rfl) (.inl ⟨further, .inl rfl⟩) stray (by omega)
      have same := stays fun g from_ room found =>
        hit.before g from_ (by omega) found
      subst same
      have first_ : IsFirst (fun q => memory[q]? = some first)
          (max strPos (strLen + 1 - needle.length)) (strPos + lenRemain) h1 :=
        ⟨by have := hit.atLeast; omega, hit.atMost, hit.here,
          fun q from_ => hit.before q (by omega)⟩
      obtain rfl := stray.unique first_
      rw [Harmless, if_pos below]
      by_cases begins : needle <+: memory.drop h
      · rw [memcmp_same begins, ok_bind, if_pos rfl]
        constructor
        · intro impossible
          have := Except.ok.inj impossible
          omega
        · intro differs
          exact absurd begins differs.1
      by_cases ends : memory.drop h <+: needle
      · obtain ⟨p, run⟩ := memcmp_outside begins ends
        rw [run]
        constructor
        · nofun
        · intro differs
          exact absurd ends differs.2
      · obtain ⟨sign, nonzero, run⟩ := memcmp_other begins ends
        rw [run, ok_bind, if_neg nonzero, if_pos (by omega)]
        exact ⟨fun _ => ⟨begins, ends⟩, fun _ => rfl⟩
    · subst none
      have same := stays fun g from_ room found => hit.before g from_ (by omega) found
      subst same
      obtain rfl := stray.unique (IsFirst.at_end (by omega) fun q from_ =>
        hit.before q (by omega))
      rw [Harmless, if_neg (lt_irrefl _)]
      by_cases stored : strPos + lenRemain ≤ memory.length
      · rw [memchr_none hit.before stored]
        exact ⟨fun _ => stored, fun _ => rfl⟩
      obtain ⟨fault, run⟩ := memchr_outside hit.before (Nat.lt_of_not_le stored) (by omega)
      rw [run]
      constructor
      · nofun
      · intro enough
        exact absurd enough stored

end

section

variable {places k : Nat}

theorem byteRindexLoop_last (room : k + needle.length ≤ memory.length) :
    ∃ result, byteRindexLoop memory needle (k + 1) = .ok result ∧
      LastOrNone (Occurs needle memory) k result := by
  induction k with
  | zero =>
    rw [byteRindexLoop]
    by_cases occurs : Occurs needle memory 0
    · rw [memcmp_same occurs]
      exact ⟨_, rfl, LastOrNone.at_end occurs⟩
    obtain ⟨noNeedle, noMemory⟩ := differs_of_not_occurs occurs room
    obtain ⟨sign, nonzero, run⟩ := memcmp_other noNeedle noMemory
    rw [run, ok_bind, if_neg nonzero]
    refine ⟨-1, rfl, LastOrNone.none ?_⟩
    intro p upTo
    rwa [le_zero.mp upTo]
  | succ k ih =>
    rw [byteRindexLoop]
    by_cases occurs : Occurs needle memory (k + 1)
    · rw [memcmp_same occurs]
      exact ⟨_, rfl, LastOrNone.at_end occurs⟩
    obtain ⟨noNeedle, noMemory⟩ := differs_of_not_occurs occurs room
    obtain ⟨sign, nonzero, run⟩ := memcmp_other noNeedle noMemory
    obtain ⟨result, later, spec⟩ := ih (by omega)
    rw [run, ok_bind, if_neg nonzero]
    exact ⟨result, later, spec.of_succ occurs⟩

theorem byteRindexLoop_none :
    byteRindexLoop memory needle places = .ok (-1) ↔ ∀ p < places, Differs memory needle p := by
  induction places with
  | zero =>
    constructor
    · intro _ p impossible
      exact absurd impossible (not_lt_zero p)
    · intro _
      rfl
  | succ places ih =>
    rw [byteRindexLoop]
    by_cases begins : needle <+: memory.drop places
    · rw [memcmp_same begins, ok_bind, if_pos rfl]
      constructor
      · intro impossible
        have := Except.ok.inj impossible
        omega
      · intro differs
        exact absurd begins (differs places (lt_succ_self places)).1
    by_cases ends : memory.drop places <+: needle
    · obtain ⟨p, run⟩ := memcmp_outside begins ends
      rw [run]
      constructor
      · nofun
      · intro differs
        exact absurd ends (differs places (lt_succ_self places)).2
    obtain ⟨sign, nonzero, run⟩ := memcmp_other begins ends
    rw [run, ok_bind, if_neg nonzero, ih]
    constructor
    · intro earlier p below
      rcases Nat.lt_succ_iff_lt_or_eq.mp below with before | rfl
      · exact earlier p before
      · exact ⟨begins, ends⟩
    · intro all p below
      exact all p (lt_succ_of_lt below)

end

/-- The bytes that `memchr` looks at end behind the string once a place has been left. -/
def searchReach (memory needle : List UInt8) (strLen start : Nat) : Nat :=
  if ∃ g < strLen, start ≤ g ∧ g + needle.length ≤ strLen ∧ memory[g]? = needle.head?
    then strLen + 1 else strLen

/-- The first place behind at which `memchr` stops does no harm. -/
def StrayHarmless (memory needle : List UInt8) (strLen start : Nat) : Prop :=
  ∀ h, IsFirst (fun q => memory[q]? = needle.head?) (max start (strLen + 1 - needle.length))
      (searchReach memory needle strLen start) h →
    Harmless memory needle (searchReach memory needle strLen start) h

section

variable {order : ByteOrder} {seed : UInt64} {src search : ParrotString} {cs ds : List Nat}
  {beyond : List UInt8} {offset : Int} {Exact : Int → Prop} {without : Prop}

section
variable (spells : Spells order seed src cs)
include spells

theorem occurs_bytes_iff (spellsSearch : Spells order seed search ds)
    (single : src.encoding.maxBytesPerCodepoint = 1)
    (singleSearch : search.encoding.maxBytesPerCodepoint = 1) (p : Nat) :
    Occurs search.bytes src.bytes p ↔ Occurs ds cs p := by
  rw [(spells.single single).1, (spellsSearch.single singleSearch).1]
  unfold Occurs
  rw [← map_drop]
  constructor
  · intro begins
    have back := begins.map UInt8.toNat
    rw [map_map, map_map] at back
    have same : ∀ {list : List Nat}, (∀ c ∈ list, c < 256) →
        list.map (UInt8.toNat ∘ UInt8.ofNat) = list := by
      intro list small
      conv_rhs => rw [← map_id list]
      exact map_congr_left fun c member => toNat_ofNat_of_lt (small c member)
    rwa [same (spellsSearch.single singleSearch).2,
      same fun c member => (spells.single single).2 c (mem_of_mem_drop member)] at back
  · intro begins
    exact begins.map UInt8.ofNat

theorem single_length (single : src.encoding.maxBytesPerCodepoint = 1) :
    src.bytes.length = cs.length := by
  rw [(spells.single single).1, length_map]

section
variable (spellsSearch : Spells order seed search ds) {start : Nat}
include spellsSearch

theorem occurs_memory_iff (single : src.encoding.maxBytesPerCodepoint = 1)
    (singleSearch : search.encoding.maxBytesPerCodepoint = 1) {p : Nat}
    (room : p + ds.length ≤ cs.length) :
    Occurs search.bytes (src.bytes ++ beyond) p ↔ Occurs ds cs p := by
  rw [Occurs.append_iff, occurs_bytes_iff spells spellsSearch single singleSearch]
  rwa [single_length spells single, single_length spellsSearch singleSearch]

theorem byteIndex_exact_iff (single : src.encoding.maxBytesPerCodepoint = 1)
    (singleSearch : search.encoding.maxBytesPerCodepoint = 1)
    (inside : start < cs.length) (nonempty : ds ≠ []) :
    (∃ result, byteIndex (src.bytes ++ beyond) src.strlen search.bytes start = .ok result ∧
        FirstOrNone (Occurs ds cs) start result) ↔ (∃ p, start ≤ p ∧ Occurs ds cs p) ∨
        StrayHarmless (src.bytes ++ beyond) search.bytes src.strlen start := by
  have sizeNeedle := single_length spellsSearch singleSearch
  have size := single_length spells single
  have positive := length_pos_of_ne_nil nonempty
  have inMemory : src.strlen ≤ (src.bytes ++ beyond).length := by
    rw [length_append, size, spells.strlen]
    exact Nat.le_add_right _ _
  have strLen := spells.strlen
  obtain ⟨first, rest, shape⟩ := exists_cons_of_length_pos (sizeNeedle ▸ positive)
  have taken : read search.bytes 0 = .ok first := by rw [shape]; rfl
  have head : search.bytes.head? = some first := by rw [shape]; rfl
  rw [byteIndex, taken, ok_bind]
  by_cases somewhere : ∃ p, start ≤ p ∧ Occurs ds cs p
  · obtain ⟨atLeast, occurs⟩ := Nat.find_spec somewhere
    have earlier : ∀ q, start ≤ q → q < Nat.find somewhere → ¬Occurs ds cs q :=
      fun q from_ below found => Nat.find_min somewhere below ⟨from_, found⟩
    have fits := occurs.fits nonempty
    have run := @byteIndexLoop_finds (src.bytes ++ beyond) search.bytes rest first src.strlen start
      (src.strlen - start) (src.strlen + 1) (Nat.find somewhere) shape inMemory
      (by rw [sizeNeedle, strLen]; exact fits)
      ((occurs_memory_iff spells spellsSearch single singleSearch fits).mpr occurs) atLeast
      (fun q from_ below found => earlier q from_ below
        ((occurs_memory_iff spells spellsSearch single singleSearch (by omega)).mp found))
      (by omega) (by omega)
    constructor
    · intro _
      exact .inl somewhere
    · intro _
      exact ⟨_, run, FirstOrNone.found _ atLeast occurs earlier⟩
  · have nowhere : ∀ q, start ≤ q → ¬Occurs ds cs q := fun q from_ found =>
      somewhere ⟨q, from_, found⟩
    obtain ⟨h, stray⟩ := @IsFirst.exists (fun q => (src.bytes ++ beyond)[q]? = search.bytes.head?) _
      (max start (src.strlen + 1 - search.bytes.length))
      (searchReach (src.bytes ++ beyond) search.bytes src.strlen start) (by
        unfold searchReach
        split <;> omega)
    have harmless : StrayHarmless (src.bytes ++ beyond) search.bytes src.strlen start ↔
        Harmless (src.bytes ++ beyond) search.bytes
          (searchReach (src.bytes ++ beyond) search.bytes src.strlen start) h := by
      constructor
      · intro all
        exact all h stray
      · intro here other first_
        rwa [first_.unique stray]
    have run := @byteIndexLoop_none (src.bytes ++ beyond) search.bytes rest first src.strlen start
      (src.strlen - start) (src.strlen + 1) src.strlen
      (searchReach (src.bytes ++ beyond) search.bytes src.strlen start) h shape inMemory (by omega)
      (fun q from_ room found => nowhere q from_
        ((occurs_memory_iff spells spellsSearch single singleSearch (by omega)).mp found))
      (by omega) (.inl rfl) (by
        unfold searchReach
        rw [head]
        split
        · rename_i hit
          obtain ⟨g, -, from_, room, found⟩ := hit
          exact .inl ⟨rfl, .inr ⟨g, from_, room, found⟩⟩
        rename_i without
        exact .inr ⟨rfl, fun g from_ room found =>
          without ⟨g, by omega, from_, room, found⟩⟩)
      (by rw [head] at stray; exact stray) (by omega)
    rw [or_iff_right somewhere, harmless, ← run]
    constructor
    · rintro ⟨result, ran, spec⟩
      cases spec with
      | found p atLeast here before => exact absurd here (nowhere p atLeast)
      | none _ => exact ran
    · intro ran
      exact ⟨-1, ran, FirstOrNone.none nowhere⟩

/-- Where the backward search finds what it shall. -/
def ReachesBack (memory needle : List UInt8) (cs ds : List Nat) (start : Nat) : Prop :=
  if ds.length ≤ cs.length then start = 0 → ∀ p, 0 < p → ¬Occurs ds cs p
  else start ≠ 0 → ∀ p ≤ start, Differs memory needle p

theorem byteRindex_exact_iff (single : src.encoding.maxBytesPerCodepoint = 1)
    (singleSearch : search.encoding.maxBytesPerCodepoint = 1)
    (positioned : start < 2 ^ 63) (sized : cs.length < 2 ^ 63) (sizedSearch : ds.length < 2 ^ 63)
    (nonempty : ds ≠ []) :
    (∃ result, byteRindex (src.bytes ++ beyond) src.strlen search.bytes start = .ok result ∧
        LastOrNone (Occurs ds cs) start result) ↔
      ReachesBack (src.bytes ++ beyond) search.bytes cs ds start := by
  have sizeNeedle := single_length spellsSearch singleSearch
  have size := single_length spells single
  have inMemory : cs.length ≤ (src.bytes ++ beyond).length := by
    rw [length_append, size]
    exact Nat.le_add_right _ _
  rw [byteRindex, spells.strlen, sizeNeedle, ReachesBack]
  by_cases shorter : ds.length ≤ cs.length
  · have last : (cs.length + (2 ^ 64 - ds.length)) % 2 ^ 64 = cs.length - ds.length := by omega
    -- the loop from a place with room
    have looped : ∀ k, k + ds.length ≤ cs.length → ∃ result,
        byteRindexLoop (src.bytes ++ beyond) search.bytes (k + 1) = .ok result ∧
          LastOrNone (Occurs ds cs) k result := by
      intro k room
      obtain ⟨result, run, spec⟩ :=
        @byteRindexLoop_last (src.bytes ++ beyond) search.bytes k (by omega)
      exact ⟨result, run, spec.congr fun p upTo =>
        occurs_memory_iff spells spellsSearch single singleSearch (by omega)⟩
    rw [last, if_pos shorter]
    by_cases atStart : start = 0
    · obtain ⟨result, run, spec⟩ := looped (cs.length - ds.length) (by omega)
      have chosen : (if start ≠ 0 ∧ start < cs.length - ds.length then start
          else cs.length - ds.length) = cs.length - ds.length :=
        if_neg fun both => both.1 atStart
      rw [chosen, if_neg (by omega), run]
      subst atStart
      have lower := spec.lower_iff (zero_le _)
      constructor
      · rintro ⟨other, same, zero_⟩ - p above found
        obtain rfl := Except.ok.inj same
        have fits := found.fits nonempty
        exact lower.mp zero_ p above (by omega) found
      · intro nothing
        exact ⟨result, rfl, lower.mpr fun p above _ => nothing rfl p above⟩
    obtain ⟨result, run, spec⟩ := looped (min start (cs.length - ds.length)) (by omega)
    have chosen : (if start ≠ 0 ∧ start < cs.length - ds.length then start
        else cs.length - ds.length) = min start (cs.length - ds.length) := by
      split <;> omega
    rw [chosen, if_neg (by omega), run]
    constructor
    · intro _ impossible
      exact absurd impossible atStart
    intro _
    exact ⟨result, rfl, spec.of_le (Nat.min_le_left _ _) fun p above upTo found => by
      have fits := found.fits nonempty
      omega⟩
  · have last : (cs.length + (2 ^ 64 - ds.length)) % 2 ^ 64 =
        cs.length + (2 ^ 64 - ds.length) := mod_eq_of_lt (by omega)
    have nowhere : ∀ p, ¬Occurs ds cs p := fun p found => by
      have fits := found.fits nonempty
      omega
    rw [last, if_neg shorter]
    by_cases atStart : start = 0
    · have chosen : (if start ≠ 0 ∧ start < cs.length + (2 ^ 64 - ds.length) then start
          else cs.length + (2 ^ 64 - ds.length)) = cs.length + (2 ^ 64 - ds.length) :=
        if_neg fun both => both.1 atStart
      rw [chosen, if_pos (by omega)]
      constructor
      · intro _ impossible
        exact absurd atStart impossible
      · intro _
        exact ⟨-1, rfl, LastOrNone.none fun p _ => nowhere p⟩
    have none := @byteRindexLoop_none (src.bytes ++ beyond) search.bytes (start + 1)
    have chosen : (if start ≠ 0 ∧ start < cs.length + (2 ^ 64 - ds.length) then start
        else cs.length + (2 ^ 64 - ds.length)) = start := if_pos ⟨atStart, by omega⟩
    rw [chosen, if_neg (by omega)]
    constructor
    · rintro ⟨result, run, spec⟩ - p upTo
      cases spec with
      | found q _ here _ => exact absurd here (nowhere q)
      | none _ => exact none.mp run p (lt_succ_of_le upTo)
    intro differs
    exact ⟨-1, none.mpr fun p below => differs atStart p (le_of_lt_succ below),
      LastOrNone.none fun p _ => nowhere p⟩

end

end

theorem guarded_unique [Decidable without]
    (unique : ∀ {result second}, Exact result → Exact second → result = second)
    {result second : Int} (one : if without then result = -1 else Exact result)
    (two : if without then second = -1 else Exact second) : result = second := by
  split at one
  · rename_i none
    rw [if_pos none] at two
    rw [one, two]
  rename_i some
  rw [if_neg some] at two
  exact unique one two

theorem stringIndex_eq (order : ByteOrder) (src : ParrotString) (beyond : List UInt8)
    (search : ParrotString) (offset : Int) : stringIndex order src beyond search offset =
      if src.encoding.maxBytesPerCodepoint = 1 then fixed8Index order src beyond search offset
      else encodingIndex order src search offset := by
  unfold stringIndex
  cases src.encoding <;> rfl

theorem stringRindex_eq (order : ByteOrder) (src : ParrotString) (beyond : List UInt8)
    (search : ParrotString) (offset : Int) : stringRindex order src beyond search offset =
      if src.encoding.maxBytesPerCodepoint = 1 then fixed8Rindex order src beyond search offset
      else encodingRindex order src search offset := by
  unfold stringRindex
  cases src.encoding <;> rfl

/-- Both strings take one byte a character, so that they are searched in memory. -/
def InMemory (src search : ParrotString) : Prop :=
  src.encoding.maxBytesPerCodepoint = 1 ∧ search.encoding.maxBytesPerCodepoint = 1

/-- The string occurs or what is behind does no harm, also searching backward. -/
structure MemoryCondition (src : ParrotString) (beyond : List UInt8) (search : ParrotString)
    (cs ds : List Nat) (offset : Int) : Prop where
  index : InMemory src search → ¬(offset < 0 ∨ cs.length ≤ offset ∨ ds = []) →
    (∃ p, offset.toNat ≤ p ∧ Occurs ds cs p) ∨
      StrayHarmless (src.bytes ++ beyond) search.bytes src.strlen offset.toNat
  rindex : InMemory src search → ¬(offset < 0 ∨ ds = []) →
    ReachesBack (src.bytes ++ beyond) search.bytes cs ds offset.toNat

/-- The searches return what they shall, also those by iterators. -/
structure SearchExact (order : ByteOrder) (seed : UInt64) (src : ParrotString)
    (beyond : List UInt8) (search : ParrotString) (cs ds : List Nat) (offset : Int) : Prop where
  index : ∃ result, stringIndex order src beyond search offset = .ok result ∧
    IndexSpec cs ds offset result
  rindex : ∃ result, stringRindex order src beyond search offset = .ok result ∧
    RindexSpec cs ds offset result
  sameIndex : ∀ other otherSearch, Spells order seed other cs → Spells order seed otherSearch ds →
    stringIndex order src beyond search offset = encodingIndex order other otherSearch offset
  sameRindex : ∀ other otherSearch, Spells order seed other cs → Spells order seed otherSearch ds →
    stringRindex order src beyond search offset = encodingRindex order other otherSearch offset

/-- A search in memory, for what can be found, is all that has to be looked at. -/
theorem searched_iff {first second guard here : Prop} [Decidable first] [Decidable second]
    [Decidable guard] [Decidable without] {generic bytes : Except Fault Int}
    (same : guard ↔ without)
    (elsewhere : ∃ result, generic = .ok result ∧ if without then result = -1 else Exact result)
    (inside : first → second → ¬without → ((∃ result, bytes = .ok result ∧ Exact result) ↔ here)) :
    (∃ result, (if first then if ¬second then generic else if guard then .ok (-1) else bytes
        else generic) = .ok result ∧ if without then result = -1 else Exact result) ↔
      (first ∧ second → ¬without → here) := by
  by_cases memory : first ∧ second
  · rw [if_pos memory.1, if_neg (not_not.mpr memory.2)]
    by_cases none : without
    · rw [if_pos (same.mpr none)]
      exact iff_of_true ⟨-1, rfl, by rw [if_pos none]⟩ fun _ some => absurd none some
    rw [if_neg (mt same.mp none)]
    simp only [if_neg none]
    rw [inside memory.1 memory.2 none]
    exact ⟨fun found _ _ => found, fun found => found memory none⟩
  have run : (if first then if ¬second then generic else if guard then .ok (-1) else bytes
      else generic) = generic := by
    by_cases single : first
    · rw [if_pos single, if_pos fun both => memory ⟨single, both⟩]
    · rw [if_neg single]
  rw [run]
  exact iff_of_true elsewhere fun both => absurd both memory

theorem stringIndex_exact_iff (spells : Spells order seed src cs)
    (spellsSearch : Spells order seed search ds) :
    (∃ result, stringIndex order src beyond search offset = .ok result ∧
        IndexSpec cs ds offset result) ↔
      (InMemory src search → ¬(offset < 0 ∨ cs.length ≤ offset ∨ ds = []) →
        (∃ p, offset.toNat ≤ p ∧ Occurs ds cs p) ∨
          StrayHarmless (src.bytes ++ beyond) search.bytes src.strlen offset.toNat) := by
  rw [stringIndex_eq]
  refine searched_iff ?_ (encodingIndex_spec spells spellsSearch offset)
    fun single singleSearch without =>
      byteIndex_exact_iff spells spellsSearch single singleSearch (by omega) fun empty =>
        without (.inr (.inr empty))
  rw [strlen_eq_zero_iff spellsSearch, spells.strlen]

theorem stringRindex_exact_iff (spells : Spells order seed src cs)
    (spellsSearch : Spells order seed search ds) (positioned : offset < 2 ^ 63)
    (sized : cs.length < 2 ^ 63) (sizedSearch : ds.length < 2 ^ 63) :
    (∃ result, stringRindex order src beyond search offset = .ok result ∧
        RindexSpec cs ds offset result) ↔ (InMemory src search → ¬(offset < 0 ∨ ds = []) →
        ReachesBack (src.bytes ++ beyond) search.bytes cs ds offset.toNat) := by
  rw [stringRindex_eq]
  refine searched_iff ?_ (encodingRindex_spec spells spellsSearch offset)
    fun single singleSearch without =>
      byteRindex_exact_iff spells spellsSearch single singleSearch (by omega) sized sizedSearch
        fun empty => without (.inr empty)
  rw [strlen_eq_zero_iff spellsSearch]

/-- Searching for a string is exact, in every encoding, exactly under the condition. -/
theorem searchExact_iff (spells : Spells order seed src cs)
    (spellsSearch : Spells order seed search ds) (positioned : offset < 2 ^ 63)
    (sized : cs.length < 2 ^ 63) (sizedSearch : ds.length < 2 ^ 63) :
    SearchExact order seed src beyond search cs ds offset ↔
      MemoryCondition src beyond search cs ds offset := by
  have index := @stringIndex_exact_iff order seed src search cs ds beyond offset spells spellsSearch
  have rindex := @stringRindex_exact_iff order seed src search cs ds beyond offset spells
    spellsSearch positioned sized sizedSearch
  constructor
  · intro exact_
    exact ⟨index.mp exact_.index, rindex.mp exact_.rindex⟩
  intro condition
  obtain ⟨first, run, spec⟩ := index.mpr condition.index
  obtain ⟨last, runLast, specLast⟩ := rindex.mpr condition.rindex
  refine ⟨⟨first, run, spec⟩, ⟨last, runLast, specLast⟩, ?_, ?_⟩
  · intro other otherSearch spellsOther spellsOtherSearch
    obtain ⟨again, ran, specAgain⟩ := encodingIndex_spec spellsOther spellsOtherSearch offset
    rw [run, ran, guarded_unique FirstOrNone.unique spec specAgain]
  intro other otherSearch spellsOther spellsOtherSearch
  obtain ⟨again, ran, specAgain⟩ := encodingRindex_spec spellsOther spellsOtherSearch offset
  rw [runLast, ran, guarded_unique LastOrNone.unique specLast specAgain]

end

theorem spells_ascii {bytes : List UInt8} (small : bytes.all (·.toNat < 0x80) = true) :
    Spells .little 0 ⟨.ascii, bytes, bytes.length, 0⟩ (bytes.map UInt8.toNat) :=
  spells_single .little 0 rfl fun byte member =>
    @of_decide_eq_true (byte.toNat < 0x80) _ (all_eq_true.mp small byte member)

theorem searchExact_abab : SearchExact .little 0 ⟨.ascii, [0x61, 0x62, 0x61, 0x62], 4, 0⟩ [0x61]
      ⟨.ascii, [0x61, 0x62], 2, 0⟩ [0x61, 0x62, 0x61, 0x62] [0x61, 0x62] 1 := by
  apply (searchExact_iff (spells_ascii (by decide)) (spells_ascii (by decide)) (by decide)
    (by decide) (by decide)).mpr
  constructor
  · intro _ _
    exact .inl ⟨2, by decide⟩
  intro _ _
  rw [ReachesBack, if_pos (by decide)]
  intro impossible
  exact absurd impossible (by decide)

/-- The string `a` in front of a `b` of the same buffer is taken for `ab`. -/
theorem found_behind_the_string : Spells .little 0 ⟨.ascii, [0x61], 1, 0⟩ [0x61] ∧
      Spells .little 0 ⟨.ascii, [0x61, 0x62], 2, 0⟩ [0x61, 0x62] ∧
      stringIndex .little ⟨.ascii, [0x61], 1, 0⟩ [0x62] ⟨.ascii, [0x61, 0x62], 2, 0⟩ 0 = .ok 0 ∧
      ¬SearchExact .little 0 ⟨.ascii, [0x61], 1, 0⟩ [0x62] ⟨.ascii, [0x61, 0x62], 2, 0⟩
        [0x61] [0x61, 0x62] 0 := by
  have found : stringIndex .little ⟨.ascii, [0x61], 1, 0⟩ [0x62] ⟨.ascii, [0x61, 0x62], 2, 0⟩ 0 =
      .ok 0 := rfl
  refine ⟨spells_ascii (by decide), spells_ascii (by decide), found, ?_⟩
  rintro ⟨⟨result, run, spec⟩, -, -, -⟩
  rw [found] at run
  obtain rfl := Except.ok.inj run
  rw [IndexSpec, if_neg (by decide)] at spec
  have nowhere : FirstOrNone (Occurs [0x61, 0x62] [0x61]) 0 (-1) :=
    FirstOrNone.none fun p _ occurs => by
      have fits := occurs.fits (cons_ne_nil _ _)
      simp only [length_cons, length_nil] at fits
      omega
  exact absurd (spec.unique nowhere) (by decide)

end RakudoStar.Strings
