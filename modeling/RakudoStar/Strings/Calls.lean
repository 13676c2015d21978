import RakudoStar.Strings.Sharing

/-!
# The calls that create strings

Each call throws, or extends a sound heap by a well-formed string with the right code points,
and reads or writes nothing outside a buffer.
-/

namespace RakudoStar.Strings

open Foundation List RakudoStar.Except

namespace StringHeap

section

variable {order : ByteOrder} {seed : UInt64} {estimate : Nat → Nat} {allocator : Allocator}
  {heap heap' : StringHeap} {i : Nat} {s : StringHeader} {cs ds : List Nat}
  {kind : ParrotString → Prop} {result : Except Fault (StringHeap × Nat)}

theorem read_found {strings : List StringHeader} (found : strings[i]? = some s) :
    read strings i = .ok s := by
  rw [read, found]

theorem Sound.bufused (sound : Sound order seed heap) (found : heap.strings[i]? = some s) :
    (heap.view s).bytes.length = s.bufused := by
  have member := mem_of_getElem? (getElem?_shared found)
  exact SharedBuffers.view_length (sound.disciplined.fits s.window member)

theorem Grows.yields {first : StringHeap}
    (grows : Grows first heap) (yields : Yields order seed heap result kind) :
    Yields order seed first result kind := by
  rcases yields with throws | ⟨heap', i, t, run, sound, later, found, shows⟩
  · exact .inl throws
  · exact .inr ⟨heap', i, t, run, sound, grows.trans later, found, shows⟩

theorem yields_old (sound : Sound order seed heap) (found : heap.strings[i]? = some s)
    (shows : kind (heap.view s)) : Yields order seed heap (.ok (heap, i)) kind :=
  .inr ⟨heap, i, s, rfl, sound, Grows.refl heap, found, shows⟩

theorem Yields.mono {wider : ParrotString → Prop}
    (yields : Yields order seed heap result kind) (weaker : ∀ str, kind str → wider str) :
    Yields order seed heap result wider := by
  rcases yields with throws | ⟨heap', i, t, run, sound, grows, found, shows⟩
  · exact .inl throws
  · exact .inr ⟨heap', i, t, run, sound, grows, found, weaker _ shows⟩

theorem copyOf_closed (s : StringHeader) : (copyOf s).flags.isGrowable = false := by
  rw [copyOf, StringFlags.isGrowable, Bool.or_true]
  rfl

theorem strCopy_yields (sound : Sound order seed heap) (found : heap.strings[i]? = some s)
    (spells : Spells order seed (heap.view s) cs) :
    Yields order seed heap (strCopy heap i) (Spells order seed · cs) := by
  rw [strCopy, read_found found, ok_bind]
  exact yields_share sound found rfl le_rfl (copyOf_closed s) spells spells

theorem strClone_yields (sound : Sound order seed heap) (found : heap.strings[i]? = some s)
    (spells : Spells order seed (heap.view s) cs) :
    Yields order seed heap (strClone allocator heap i) (Spells order seed · cs) := by
  rw [strClone, read_found found, ok_bind]
  exact yields_newString sound allocator _ (sound.bufused found).le spells spells

theorem view_windowOf (start bufused strlen : Nat) (inside : start + bufused ≤ s.bufused) :
    heap.view (windowOf s start bufused strlen) =
      ⟨s.encoding, ((heap.view s).bytes.drop start).take bufused, strlen, 0⟩ := by
  have shorter : min bufused (s.bufused - start) = bufused := by omega
  have bytes : (heap.view (windowOf s start bufused strlen)).bytes =
      ((heap.view s).bytes.drop start).take bufused := by
    change ((heap.shared.bufferAt s.bufstart).drop (s.strstart + start)).take bufused =
      ((((heap.shared.bufferAt s.bufstart).drop s.strstart).take s.bufused).drop start).take bufused
    rw [drop_take, drop_drop, take_take, shorter]
  exact congrArg (ParrotString.mk s.encoding · strlen 0) bytes

theorem windowOf_yields (sound : Sound order seed heap) (found : heap.strings[i]? = some s)
    {start bufused strlen : Nat} (inside : start + bufused ≤ s.bufused) (spells : Spells order seed
      ⟨s.encoding, ((heap.view s).bytes.drop start).take bufused, strlen, 0⟩ cs) :
    Yields order seed heap (.ok (newHeader heap (windowOf s start bufused strlen)))
      (Spells order seed · cs) := by
  rw [← view_windowOf start bufused strlen inside] at spells
  have before : s.strstart + start + bufused ≤ s.strstart + s.bufused := by omega
  exact yields_share sound found rfl before (copyOf_closed s) spells spells

theorem substrCodes_throws {offset length : Int} {fault : Fault}
    (failed : substrCodes cs offset length = .error fault) :
    ∃ type message, fault = .thrown type message := by
  unfold substrCodes at failed
  generalize (if offset < 0 then offset + (cs.length : Int) else offset) = place at failed
  by_cases none : length ≤ 0 ∨ place = cs.length
  · rw [if_pos none] at failed
    cases failed
  rw [if_neg none] at failed
  by_cases outside : place < 0 ∨ (cs.length : Int) < place
  · rw [if_pos outside] at failed
    cases failed
    exact ⟨_, _, rfl⟩
  · rw [if_neg outside] at failed
    cases failed

theorem strSubstr_yields (sound : Sound order seed heap) (found : heap.strings[i]? = some s)
    (spells : Spells order seed (heap.view s) cs) (offset length : Int) :
    Yields order seed heap (strSubstr order heap i offset length)
      fun str => ∃ codes, substrCodes cs offset length = .ok codes ∧
        Spells order seed str codes := by
  have shown := stringSubstr_shows spells offset length
  rw [strSubstr, read_found found, ok_bind]
  cases selected : substrCodes cs offset length with
  | error fault =>
    rw [selected] at shown
    have failed : stringSubstr order (heap.view s) offset length = .error fault := shown
    rw [failed]
    obtain ⟨type, message, rfl⟩ := substrCodes_throws selected
    exact .inl ⟨type, message, rfl⟩
  | ok codes =>
    rw [selected] at shown
    obtain ⟨window, run, viewed, part⟩ := shown
    rw [run, ok_bind]
    cases window with
    | empty =>
      obtain ⟨t, foundEmpty, spellsEmpty⟩ := sound.empty
      have none : codes = [] := length_eq_zero_iff.mp viewed.strlen.symm
      subst none
      exact yields_old sound foundEmpty ⟨[], rfl, spellsEmpty⟩
    | whole =>
      have copied : Spells order seed (heap.view (copyOf s)) codes := viewed
      exact yields_share sound found rfl le_rfl (copyOf_closed s) copied ⟨codes, rfl, copied⟩
    | part start bufused strlen =>
      have inside := part start bufused strlen rfl
      rw [sound.bufused found] at inside
      exact (windowOf_yields sound found inside viewed).mono fun _ shows => ⟨codes, rfl, shows⟩

def IsIterator (order : ByteOrder) (str : ParrotString) (iter : StringIter) : Prop :=
  ∃ k : Nat, k ≤ str.strlen ∧ iterSkipOf order str .init k = .ok iter

variable {enc : Encoding} {k : Nat} {str : ParrotString} {rep : Option Nat}

/-- Moving from the start leads to the boundary of a code point. -/
theorem iterSkipOf_init (spells : Spells order seed str cs) (inside : k ≤ cs.length) :
    iterSkipOf order str .init k = .ok (stringIterAt order str.encoding cs k) := by
  have moved := iterSkipOf_at spells (show (0 : Int) ≤ (0 : Nat) + (k : Int) by omega)
    (Nat.zero_le _) (show ((0 : Nat) : Int) + k ≤ cs.length by omega)
  have target : (((0 : Nat) : Int) + (k : Int)).toNat = k := by omega
  rw [target] at moved
  exact moved

theorem IsIterator.boundary {iter : StringIter} (iterator : IsIterator order str iter)
    (spells : Spells order seed str cs) :
    ∃ k ≤ cs.length, iter = stringIterAt order str.encoding cs k := by
  obtain ⟨k, inside, moved⟩ := iterator
  rw [spells.strlen] at inside
  rw [iterSkipOf_init spells inside] at moved
  exact ⟨k, inside, (Except.ok.inj moved).symm⟩

theorem Sound.bufused_eq (sound : Sound order seed heap) (found : heap.strings[i]? = some s)
    (spells : Spells order seed (heap.view s) cs) :
    s.bufused = (codeOf order s.encoding).boundary cs cs.length := by
  rw [← sound.bufused found, spells.bytes, WordCode.boundary_length]
  rfl

theorem windowOf_boundaries (sound : Sound order seed heap) (found : heap.strings[i]? = some s)
    (spells : Spells order seed (heap.view s) cs) {stop : Nat} (ordered : k ≤ stop)
    (inside : stop ≤ cs.length) : Yields order seed heap (.ok (newHeader heap (windowOf s
      ((codeOf order s.encoding).boundary cs k)
      ((codeOf order s.encoding).boundary cs stop - (codeOf order s.encoding).boundary cs k)
      (stop - k)))) (Spells order seed · ((cs.drop k).take (stop - k))) := by
  have used := sound.bufused_eq found spells
  have total : k + (stop - k) = stop := Nat.add_sub_cancel' ordered
  have part := part_spells spells (show k + (stop - k) ≤ cs.length by omega)
  have first : (codeOf order s.encoding).boundary cs k ≤
      (codeOf order s.encoding).boundary cs (k + (stop - k)) := boundary_mono cs k (stop - k)
  have last := (codeOf order s.encoding).boundary_le_length cs stop
  rw [← WordCode.boundary_length] at last
  rw [total] at part first
  have before : (codeOf order s.encoding).boundary cs k +
      ((codeOf order s.encoding).boundary cs stop - (codeOf order s.encoding).boundary cs k) ≤
        s.bufused := by omega
  exact windowOf_yields sound found before part

theorem strIterSubstr_yields (sound : Sound order seed heap) (found : heap.strings[i]? = some s)
    (spells : Spells order seed (heap.view s) cs) {l : StringIter} {r : Option StringIter}
    (left : IsIterator order (heap.view s) l)
    (right : ∀ iter ∈ r, IsIterator order (heap.view s) iter ∧ l.charpos ≤ iter.charpos) :
    Yields order seed heap (strIterSubstr heap i l r)
      fun str => ∃ codes, Spells order seed str codes := by
  obtain ⟨k, insideLeft, rfl⟩ := left.boundary spells
  have strlen : s.strlen = cs.length := spells.strlen
  rw [strIterSubstr, read_found found, ok_bind]
  cases r with
  | none =>
    have whole := windowOf_boundaries sound found spells insideLeft le_rfl
    rw [← sound.bufused_eq found spells, ← strlen] at whole
    exact whole.mono fun _ shows => ⟨_, shows⟩
  | some iter =>
    obtain ⟨iterator, ordered⟩ := right iter rfl
    obtain ⟨stop, inside, rfl⟩ := iterator.boundary spells
    exact (windowOf_boundaries sound found spells ordered inside).mono fun _ shows => ⟨_, shows⟩

theorem toEncoding_shared {result : ParrotString} {encoding : Encoding}
    (shares : sharesStorage encoding str.encoding = true)
    (run : toEncoding order estimate encoding str = .ok result) :
    result = { str with encoding := result.encoding } := by
  have single : ∀ {enc : Encoding}, str.encoding.maxBytesPerCodepoint = 1 →
      fixed8ToEncoding order str enc = .ok result →
        result = { str with encoding := result.encoding } := by
    intro enc one converted
    unfold fixed8ToEncoding at converted
    rw [if_pos one] at converted
    split at converted
    · obtain ⟨_, _, stored⟩ := of_bind converted
      cases stored
      rfl
    · cases converted
      rfl
  cases encoding with
  | ascii | latin1 | binary => exact single (of_decide_eq_true shares) run
  | utf8 => cases shares
  | utf16 => cases shares
  | ucs2 => cases shares
  | ucs4 =>
    have already : str.encoding = .ucs4 := of_decide_eq_true shares
    rw [toEncoding, ucs4ToEncoding, if_pos already] at run
    cases run
    rfl

theorem convert_yields (sound : Sound order seed heap) (found : heap.strings[i]? = some s)
    (spells : Spells order seed (heap.view s) cs) (encoding : Encoding) :
    Yields order seed heap (convert order estimate allocator heap encoding i) fun str =>
      Spells order seed str cs ∧ toEncoding order estimate encoding (heap.view s) = .ok str := by
  rw [convert, read_found found, ok_bind]
  rcases toEncoding_spec spells estimate encoding with throws | ⟨str, run, kept, _⟩
  · exact .inl (throws.bind _)
  rw [run, ok_bind]
  by_cases shares : sharesStorage encoding s.encoding = true
  · have label := @toEncoding_shared order estimate (heap.view s) str encoding shares run
    have view : heap.view { copyOf s with encoding := str.encoding } = str := label.symm
    rw [if_pos shares]
    rw [← view] at kept
    exact yields_share sound found rfl le_rfl (copyOf_closed s) kept
      ⟨kept, congrArg Except.ok view.symm⟩
  · rw [if_neg shares]
    exact yields_newString sound allocator _ le_rfl kept ⟨kept, rfl⟩

theorem strChangeEncoding_yields (sound : Sound order seed heap)
    (found : heap.strings[i]? = some s) (spells : Spells order seed (heap.view s) cs)
    (encoding : Encoding) :
    Yields order seed heap (strChangeEncoding order estimate allocator heap i encoding)
      (Spells order seed · cs) := by
  rw [strChangeEncoding, read_found found, ok_bind]
  by_cases same : encoding = s.encoding
  · rw [if_pos same]
    exact yields_old sound found spells
  · rw [if_neg same]
    exact (convert_yields sound found spells encoding).mono fun _ shows => shows.1

section

variable (order : ByteOrder) (seed : UInt64)

/-- String number `i` holds these code points, and `enc` spells them as they stand
there. -/
def Supplies (heap : StringHeap) (enc : Encoding) (i : Nat) (cs : List Nat) : Prop :=
  ∃ s, heap.strings[i]? = some s ∧ Spells order seed (heap.view s) cs ∧
    SpeltAlike order enc s.encoding cs

end

theorem Supplies.grows (supplies : Supplies order seed heap enc i cs)
    (sound : Sound order seed heap) (grows : Grows heap heap') :
    Supplies order seed heap' enc i cs := by
  obtain ⟨s, found, spells, alike⟩ := supplies
  obtain ⟨t, there, same⟩ := grows.view sound.disciplined found
  have encoding : t.encoding = s.encoding := congrArg ParrotString.encoding same
  refine ⟨t, there, ?_, ?_⟩
  · rw [same]
    exact spells
  · rw [encoding]
    exact alike

theorem convert_supplies (sound : Sound order seed heap) (found : heap.strings[i]? = some s)
    (spells : Spells order seed (heap.view s) cs)
    (upgrade : enc = .ucs4 ∨ enc = .utf16 ∨ enc = .utf8) :
    Throws (convert order estimate allocator heap enc i) ∨ ∃ heap' k,
      convert order estimate allocator heap enc i = .ok (heap', k) ∧
        Sound order seed heap' ∧ Grows heap heap' ∧ Supplies order seed heap' enc k cs := by
  have alike : ∀ {str : ParrotString}, Spells order seed str cs →
      toEncoding order estimate enc (heap.view s) = .ok str →
        SpeltAlike order enc str.encoding cs := by
    intro str kept run
    rcases upgrade with rfl | rfl | rfl
    · obtain ⟨other, ran, _, tag⟩ := ucs4ToEncoding_spec spells
      cases ran.symm.trans run
      rw [tag]
      intro c member
      exact ⟨(spells.holds c member).isCharacter, rfl⟩
    · obtain ⟨other, ran, _, tag⟩ := utf16ToEncoding_spec spells estimate
      cases ran.symm.trans run
      have holds := kept.holds
      rcases tag with ucs2 | ⟨utf16, _⟩
      · rw [ucs2] at holds ⊢
        exact utf16_alike_ucs2 holds
      · rw [utf16]
        exact fun c member => ⟨(spells.holds c member).isCharacter, rfl⟩
    rcases utf8ToEncoding_spec spells estimate with ⟨_, other, ran, _, tag⟩ | ⟨_, failed⟩
    · cases ran.symm.trans run
      rw [tag]
      exact fun c member => ⟨(spells.holds c member).isCharacter, rfl⟩
    · obtain ⟨type, message, thrown⟩ := failed
      cases thrown.symm.trans run
  rcases convert_yields sound found spells enc with throws |
    ⟨heap', k, t, run, later, grows, there, shows⟩
  · exact .inl throws
  · exact .inr ⟨heap', k, run, later, grows, t, there, shows.1, alike shows.1 shows.2⟩

theorem repCompatible_supplies (sound : Sound order seed heap) {t : StringHeader}
    (foundLeft : heap.strings[i]? = some s) (spellsLeft : Spells order seed (heap.view s) cs)
    (foundRight : heap.strings[k]? = some t) (spellsRight : Spells order seed (heap.view t) ds)
    (compatible : repCompatible s t = some enc) :
    Supplies order seed heap enc i cs ∧ Supplies order seed heap enc k ds := by
  have alike := repCompatible_spec spellsLeft spellsRight rfl rfl rfl rfl
    (sound.bufused foundLeft) (sound.bufused foundRight) compatible
  exact ⟨⟨s, foundLeft, spellsLeft, alike.1⟩, ⟨t, foundRight, spellsRight, alike.2⟩⟩

theorem upgradeEncoding_cases (a b : Encoding) : upgradeEncoding a b = .ucs4 ∨
    upgradeEncoding a b = .utf16 ∨ upgradeEncoding a b = .utf8 := by
  unfold upgradeEncoding
  split
  · exact .inl rfl
  split
  · exact .inr (.inl rfl)
  · exact .inr (.inr rfl)

section
variable (sound : Sound order seed heap)
include sound

theorem concatOperands_spec (readsLeft : Reads order seed heap i cs)
    (readsRight : Reads order seed heap k ds) :
    Throws (concatOperands order estimate allocator heap i k) ∨ ∃ heap' enc a b,
      concatOperands order estimate allocator heap i k = .ok (heap', enc, a, b) ∧
        Sound order seed heap' ∧ Grows heap heap' ∧ Supplies order seed heap' enc a cs ∧
          Supplies order seed heap' enc b ds := by
  obtain ⟨s, foundLeft, spellsLeft⟩ := readsLeft
  obtain ⟨t, foundRight, spellsRight⟩ := readsRight
  rw [concatOperands, read_found foundLeft, ok_bind, read_found foundRight, ok_bind]
  cases compatible : repCompatible s t with
  | some enc =>
    have supplies := repCompatible_supplies sound foundLeft spellsLeft foundRight spellsRight
      compatible
    exact .inr ⟨heap, enc, i, k, rfl, sound, Grows.refl heap, supplies⟩
  | none =>
    dsimp only
    have upgrade := upgradeEncoding_cases s.encoding t.encoding
    rcases convert_supplies sound foundLeft spellsLeft upgrade with
      throws | ⟨first, a, run, soundFirst, growsFirst, suppliesLeft⟩
    · exact .inl (throws.bind _)
    rw [run, ok_bind]
    obtain ⟨u, foundAgain, same⟩ := growsFirst.view sound.disciplined foundRight
    rw [← same] at spellsRight
    rcases convert_supplies soundFirst foundAgain spellsRight upgrade with
      throws | ⟨second, b, run, soundSecond, growsSecond, suppliesRight⟩
    · exact .inl (throws.bind _)
    rw [run, ok_bind]
    exact .inr ⟨second, _, a, b, rfl, soundSecond, growsFirst.trans growsSecond,
      suppliesLeft.grows soundFirst growsSecond, suppliesRight⟩

theorem appendString_yields (suppliesLeft : Supplies order seed heap enc i cs)
    (suppliesRight : Supplies order seed heap enc k ds) :
    Yields order seed heap (appendString allocator heap enc i k)
      (Spells order seed · (cs ++ ds)) := by
  obtain ⟨s, foundLeft, spellsLeft, alikeLeft⟩ := suppliesLeft
  obtain ⟨t, foundRight, spellsRight, alikeRight⟩ := suppliesRight
  have whole := (spellsLeft.relabel alikeLeft).append (spellsRight.relabel alikeRight) rfl
  have usedLeft := sound.bufused foundLeft
  have usedRight := sound.bufused foundRight
  rw [appendString, read_found foundLeft, ok_bind, read_found foundRight, ok_bind]
  by_cases grow : s.flags.isGrowable = true ∧
      s.strstart + (s.bufused + t.bufused) ≤ (heap.bufferAt s.bufstart).length
  · have room : s.strstart + s.bufused + (heap.view t).bytes.length ≤
        (heap.bufferAt s.bufstart).length := by
      rw [usedRight, add_assoc]
      exact grow.2
    rw [if_pos grow, writeAt_eq room, ok_bind]
    apply yields_growInPlace sound foundLeft grow.1 room _ whole whole
    rw [usedRight]
    rfl
  rw [if_neg grow]
  apply yields_newString sound allocator _ _ whole whole
  rw [length_append, usedLeft, usedRight]
  split
  · exact Nat.le_add_right _ _
  · exact le_rfl

theorem concatStrings_yields (readsLeft : Reads order seed heap i cs)
    (readsRight : Reads order seed heap k ds) :
    Yields order seed heap (concatStrings order estimate allocator heap i k)
      (Spells order seed · (cs ++ ds)) := by
  obtain ⟨s, foundLeft, spellsLeft⟩ := readsLeft
  obtain ⟨t, foundRight, spellsRight⟩ := readsRight
  have strlenLeft : s.strlen = cs.length := spellsLeft.strlen
  have strlenRight : t.strlen = ds.length := spellsRight.strlen
  rw [concatStrings, read_found foundLeft, ok_bind, read_found foundRight, ok_bind,
    strlenLeft, strlenRight]
  by_cases noLeft : cs.length = 0
  · rw [if_pos noLeft]
    have none := length_eq_zero_iff.mp noLeft
    subst none
    rw [nil_append]
    by_cases noRight : ds.length = 0
    · rw [if_pos noRight]
      have none := length_eq_zero_iff.mp noRight
      subst none
      obtain ⟨u, foundEmpty, spellsEmpty⟩ := sound.empty
      exact yields_old sound foundEmpty spellsEmpty
    · rw [if_neg noRight]
      exact strCopy_yields sound foundRight spellsRight
  rw [if_neg noLeft]
  by_cases noRight : ds.length = 0
  · rw [if_pos noRight]
    have none := length_eq_zero_iff.mp noRight
    subst none
    rw [append_nil]
    exact strCopy_yields sound foundLeft spellsLeft
  rw [if_neg noRight]
  rcases concatOperands_spec sound ⟨s, foundLeft, spellsLeft⟩ ⟨t, foundRight, spellsRight⟩ with
    throws | ⟨heap', enc, a, b, run, soundLater, grows, suppliesLeft, suppliesRight⟩
  · exact .inl (throws.bind _)
  · rw [run, ok_bind]
    exact grows.yields (appendString_yields soundLater suppliesLeft suppliesRight)

theorem concatNull_yields (found : heap.strings[i]? = some s)
    (spells : Spells order seed (heap.view s) cs) :
    Yields order seed heap (concatNull heap i) (Spells order seed · cs) := by
  have strlen : s.strlen = cs.length := spells.strlen
  rw [concatNull, read_found found, ok_bind, strlen]
  by_cases none : cs.length = 0
  · rw [if_pos none]
    have nothing := length_eq_zero_iff.mp none
    subst nothing
    obtain ⟨u, foundEmpty, spellsEmpty⟩ := sound.empty
    exact yields_old sound foundEmpty spellsEmpty
  · rw [if_neg none]
    exact strCopy_yields sound found spells

theorem convertToUtf8_spec (found : heap.strings[i]? = some s)
    (spells : Spells order seed (heap.view s) cs) :
    Yields order seed heap (convertToUtf8 order estimate allocator heap i) fun str =>
      Spells order seed str cs ∧ str.encoding = .utf8 := by
  rw [convertToUtf8, read_found found, ok_bind]
  by_cases other : s.encoding ≠ .utf8
  · rw [if_pos other]
    apply (convert_yields sound found spells .utf8).mono
    rintro str ⟨kept, run⟩
    refine ⟨kept, ?_⟩
    rcases utf8ToEncoding_spec spells estimate with ⟨_, result, ran, _, tag⟩ | ⟨_, failed⟩
    · cases ran.symm.trans run
      exact tag
    · obtain ⟨type, message, thrown⟩ := failed
      cases thrown.symm.trans run
  · rw [if_neg other]
    exact yields_old sound found ⟨spells, Decidable.not_not.mp other⟩

end

theorem supplies_self (found : heap.strings[i]? = some s)
    (spells : Spells order seed (heap.view s) cs) : Supplies order seed heap s.encoding i cs :=
  ⟨s, found, spells, spells.alike⟩

/-- What is put in holds these code points; `STRINGNULL` holds none. -/
def Replaces (order : ByteOrder) (seed : UInt64) (heap : StringHeap) (enc : Encoding) :
    Option Nat → List Nat → Prop
  | none, ds => ds = []
  | some k, ds => Supplies order seed heap enc k ds

/-- The same before an encoding has been selected. -/
def Offers (order : ByteOrder) (seed : UInt64) (heap : StringHeap) : Option Nat → List Nat → Prop
  | none, ds => ds = []
  | some k, ds => Reads order seed heap k ds

theorem replaceOperands_spec (sound : Sound order seed heap) (reads : Reads order seed heap i cs)
    (offers : Offers order seed heap rep ds) :
    Throws (replaceOperands order estimate allocator heap i rep) ∨ ∃ heap' enc a r,
      replaceOperands order estimate allocator heap i rep = .ok (heap', enc, a, r) ∧
        Sound order seed heap' ∧ Grows heap heap' ∧ Supplies order seed heap' enc a cs ∧
          Replaces order seed heap' enc r ds := by
  obtain ⟨s, found, spells⟩ := reads
  rw [replaceOperands, read_found found, ok_bind]
  cases rep with
  | none =>
    exact .inr ⟨heap, s.encoding, i, none, rfl, sound, Grows.refl heap,
      supplies_self found spells, offers⟩
  | some k =>
    obtain ⟨t, foundRep, spellsRep⟩ := offers
    dsimp only
    rw [read_found foundRep, ok_bind]
    cases compatible : repCompatible s t with
    | some enc =>
      have supplies := repCompatible_supplies sound found spells foundRep spellsRep compatible
      exact .inr ⟨heap, enc, i, some k, rfl, sound, Grows.refl heap, supplies⟩
    | none =>
      rcases convertToUtf8_spec sound found spells with
        throws | ⟨first, a, u, run, soundFirst, growsFirst, foundA, spellsA, utf8A⟩
      · exact .inl (throws.bind _)
      rw [run, ok_bind]
      obtain ⟨v, foundAgain, same⟩ := growsFirst.view sound.disciplined foundRep
      rw [← same] at spellsRep
      rcases convertToUtf8_spec soundFirst foundAgain spellsRep with
        throws | ⟨second, b, w, run, soundSecond, growsSecond, foundB, spellsB, utf8B⟩
      · exact .inl (throws.bind _)
      obtain ⟨x, foundX, sameX⟩ := growsSecond.view soundFirst.disciplined foundA
      rw [← sameX] at spellsA utf8A
      have label : w.encoding = x.encoding := Eq.trans utf8B utf8A.symm
      have suppliesB := supplies_self foundB spellsB
      rw [label] at suppliesB
      rw [run, ok_bind]
      rw [read_found foundX, ok_bind]
      exact .inr ⟨second, x.encoding, a, some b, rfl, soundSecond,
        growsFirst.trans growsSecond, supplies_self foundX spellsA, suppliesB⟩

theorem replacement_spec (replaces : Replaces order seed heap enc rep ds) :
    ∃ str, replacement heap rep = .ok str ∧
      Spells order seed ⟨enc, str.bytes, str.strlen, 0⟩ ds := by
  cases rep with
  | none =>
    cases (show ds = [] from replaces)
    exact ⟨emptyString, rfl, nofun, rfl, rfl, .inl rfl⟩
  | some k =>
    obtain ⟨t, found, spells, alike⟩ := replaces
    refine ⟨heap.view t, ?_, spells.relabel alike⟩
    rw [replacement, read_found found, ok_bind]

theorem spells_splice {rep : ParrotString} {offset length : Nat} (spells : Spells order seed str cs)
    (alike : SpeltAlike order enc str.encoding cs)
    (spellsRep : Spells order seed ⟨enc, rep.bytes, rep.strlen, 0⟩ ds)
    (inside : offset + length ≤ cs.length) : Spells order seed
      ⟨enc, str.bytes.take ((codeOf order str.encoding).boundary cs offset) ++ rep.bytes ++
        str.bytes.drop ((codeOf order str.encoding).boundary cs (offset + length)),
        str.strlen - (offset + length - offset) + rep.strlen, 0⟩
      (cs.take offset ++ ds ++ cs.drop (offset + length)) where
  holds := by
    intro c member
    rcases mem_append.mp member with member | behind
    · rcases mem_append.mp member with before | between
      · exact (alike c (mem_of_mem_take before)).1
      · exact spellsRep.holds c between
    · exact (alike c (mem_of_mem_drop behind)).1
  bytes := by
    have before : (codeOf order enc).text (cs.take offset) =
        (codeOf order str.encoding).text (cs.take offset) :=
      (alike.subset fun _ => mem_of_mem_take).text
    have behind : (codeOf order enc).text (cs.drop (offset + length)) =
        (codeOf order str.encoding).text (cs.drop (offset + length)) :=
      (alike.subset fun _ => mem_of_mem_drop).text
    have between : rep.bytes = (codeOf order enc).text ds := spellsRep.bytes
    rw [WordCode.text_append, WordCode.text_append, before, behind, spells.bytes, between,
      WordCode.take_boundary, WordCode.drop_boundary]
  strlen := by
    have strlen : rep.strlen = ds.length := spellsRep.strlen
    dsimp only
    rw [length_append, length_append, length_take, length_drop, strlen,
      spells.strlen, min_eq_left (Nat.le_of_add_right_le inside)]
    omega
  cached := .inl rfl

section
variable (sound : Sound order seed heap)
include sound

theorem splice_yields {offset length : Nat} (supplies : Supplies order seed heap enc i cs)
    (replaces : Replaces order seed heap enc rep ds) (inside : offset + length ≤ cs.length) :
    Yields order seed heap (splice order allocator heap enc i offset length rep)
      (Spells order seed · (cs.take offset ++ ds ++ cs.drop (offset + length))) := by
  obtain ⟨s, found, spells, alike⟩ := supplies
  obtain ⟨rep', replaced, spellsRep⟩ := replacement_spec replaces
  have start := iterSkipOf_init spells (show offset ≤ cs.length by omega)
  have stop := iterSkipOf_at spells (show (0 : Int) ≤ (offset : Nat) + (length : Int) by omega)
    (show offset ≤ cs.length by omega) (show (offset : Int) + length ≤ cs.length by omega)
  have target : ((offset : Int) + (length : Int)).toNat = offset + length := by omega
  rw [target] at stop
  have used := sound.bufused found
  have total : s.bufused = ((codeOf order s.encoding).text cs).length := by
    rw [← used, spells.bytes]
    rfl
  have ordered : (codeOf order s.encoding).boundary cs offset ≤
      (codeOf order s.encoding).boundary cs (offset + length) := boundary_mono cs offset length
  have last := (codeOf order s.encoding).boundary_le_length cs (offset + length)
  have forward : ¬(stringIterAt order (heap.view s).encoding cs (offset + length)).bytepos <
      (stringIterAt order (heap.view s).encoding cs offset).bytepos := ordered.not_gt
  rw [splice, read_found found, ok_bind, replaced, ok_bind, start, ok_bind,
    stop, ok_bind, if_neg forward]
  have spliced := spells_splice spells alike spellsRep inside
  apply yields_newString sound allocator _ _ spliced spliced
  rw [length_append, length_append, length_take, length_drop, used]
  change min ((codeOf order s.encoding).boundary cs offset) s.bufused + _ +
    (s.bufused - (codeOf order s.encoding).boundary cs (offset + length)) ≤ s.bufused -
      ((codeOf order s.encoding).boundary cs (offset + length) -
        (codeOf order s.encoding).boundary cs offset) + _
  omega

theorem strReplace_yields (reads : Reads order seed heap i cs)
    (offers : Offers order seed heap rep ds) (offset length : Int) :
    Yields order seed heap (strReplace order estimate allocator heap i offset length rep)
      fun str => ∃ codes, Spells order seed str codes := by
  obtain ⟨s, found, spells⟩ := reads
  have strlen : s.strlen = cs.length := spells.strlen
  rw [strReplace, read_found found, ok_bind, strlen]
  generalize (if offset < 0 then (cs.length : Int) + offset else offset) = place
  by_cases outside : place < 0 ∨ (cs.length : Int) < place
  · rw [if_pos outside]
    exact .inl ⟨_, _, rfl⟩
  rw [if_neg outside]
  rcases replaceOperands_spec sound ⟨s, found, spells⟩ offers with
    throws | ⟨heap', enc, a, r, run, later, grows, supplies, replaces⟩
  · exact .inl (throws.bind _)
  rw [run, ok_bind]
  have inside : place.toNat + (if length < 0 ∨ ((cs.length - place.toNat : Nat) : Int) < length
      then cs.length - place.toNat else length.toNat) ≤ cs.length := by
    split <;> omega
  exact grows.yields ((splice_yields later supplies replaces inside).mono fun _ shows => ⟨_, shows⟩)

theorem strNewInit_yields (buffer : List UInt8) (encoding : Encoding) (flags : StringFlags) :
    Yields order seed heap (strNewInit order allocator heap buffer encoding flags)
      fun str => ∃ codes, Spells order seed str codes := by
  rw [strNewInit]
  by_cases external : flags.external = true
  · rw [if_pos external]
    rcases stringScan_spec order seed encoding buffer with throws | ⟨strlen, cs, run, spells⟩
    · exact .inl (throws.bind _)
    rw [run, ok_bind]
    have whole : (buffer.drop 0).take buffer.length = buffer := take_length
    apply yields_fresh sound rfl (zero_add _).le
    · rw [whole]
      exact spells
    · rw [whole]
      exact ⟨cs, spells⟩
  rw [if_neg external]
  by_cases nonempty : buffer ≠ []
  · rw [if_pos nonempty]
    rcases stringScan_spec order seed encoding buffer with throws | ⟨strlen, cs, run, spells⟩
    · exact .inl (throws.bind _)
    · rw [run, ok_bind]
      exact yields_newString sound allocator _ le_rfl spells ⟨cs, spells⟩
  · rw [if_neg nonempty]
    have spells : Spells order seed ⟨encoding, [], 0, 0⟩ [] := ⟨nofun, rfl, rfl, .inl rfl⟩
    exact yields_newString sound allocator _ le_rfl spells ⟨[], spells⟩

theorem strNewNoinit_yields (capacity : Nat) :
    Yields order seed heap (strNewNoinit allocator heap capacity) (Spells order seed · []) :=
  yields_newString sound allocator _ (Nat.zero_le _) emptyString_spells emptyString_spells

theorem strNewFromBuffer_yields {memory : List UInt8} {len : Nat} (inside : len ≤ memory.length) :
    Yields order seed heap (.ok (strNewFromBuffer heap memory len))
      fun str => ∃ codes, Spells order seed str codes := by
  have size : ((memory.drop 0).take len).length = len := by
    rw [drop_zero, length_take, min_eq_left inside]
  have spells := @spells_single order seed .binary rfl ((memory.drop 0).take len)
    fun byte _ => byte.toNat_lt
  rw [size] at spells
  have fits : 0 + len ≤ memory.length := by
    rw [zero_add]
    exact inside
  exact yields_fresh sound rfl fits spells ⟨_, spells⟩

end

end

end StringHeap

end RakudoStar.Strings
