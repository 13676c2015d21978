import RakudoStar.Serialization.RoundTrip
import RakudoStar.Serialization.Serialize

/-!
# What references lead to

The object graph as nodes with references, and what the writing functions do to the work lists:
they claim what they meet, once, unless it is in a context already.
-/

namespace RakudoStar.Serialization

open Foundation List

inductive Node where
  | stable (st : STable)
  | object (obj : Obj)
  | code (code : Code)
  | context (ctx : Ctx)

mutual

/-- The nodes that a value leads to, through arrays and hashes. -/
def VMValue.mentions : VMValue → List Node
  | .object obj => [.object obj]
  | .code ref => [.code ref]
  | .array elements => VMValue.mentionsAll elements
  | .hash entries => VMValue.mentionsEntries entries
  | _ => []

def VMValue.mentionsAll : List VMValue → List Node
  | [] => []
  | value :: values => value.mentions ++ VMValue.mentionsAll values

def VMValue.mentionsEntries : List (String × VMValue) → List Node
  | [] => []
  | (_, value) :: entries => value.mentions ++ VMValue.mentionsEntries entries

end

def Item.mentions : Item → List Node
  | .ref value => value.mentions
  | .objRef obj => [.object obj]
  | .stableRef st => [.stable st]
  | _ => []

def mentionsOf (items : List Item) : List Node := items.flatMap Item.mentions

namespace World

/-- An outer context counts when its code has a static code reference. -/
def outerMentions (world : World) : Option Ctx → List Node
  | none => []
  | some ctx =>
    match Writer.closureToStaticCodeRef world (world.ctx ctx).currentSub false with
    | .ok (some _) => [.context ctx]
    | _ => []

/-- What the serialized form of an object body refers to. -/
def bodyItems (obj : ObjectInfo) : List Item :=
  if obj.concrete then obj.body.getD [] else []

/-- The nodes that a node refers to. -/
def references (world : World) : Node → List Node
  | .stable st => mentionsOf (stableItems (world.stable st))
  | .object obj =>
    .stable (world.object obj).stable :: mentionsOf (bodyItems (world.object obj))
  | .code code =>
    (if (world.code code).compilerStub then []
      else world.outerMentions (world.code code).outerCtx) ++
    (world.code code).codeObject.toList.map Node.object
  | .context ctx =>
    world.outerMentions (world.ctx ctx).outerCtx ++ mentionsOf (contextItems (world.ctx ctx))

end World

/-- The context that a node is in. -/
def Roots.scOf (roots : Roots) : Node → Option Sc
  | .stable st => roots.scOfStable st
  | .object obj => roots.scOfObject obj
  | .code code => roots.scOfCode code
  | .context ctx => roots.scOfCtx ctx

namespace Writer

def scOf (w : Writer) : Node → Option Sc
  | .stable st => w.scOfStable st
  | .object obj => w.scOfObject obj
  | .code code => w.scOfCode code
  | .context ctx => w.scOfCtx ctx

/-- The node is in the list of its kind. -/
def Listed (w : Writer) : Node → Prop
  | .stable st => st ∈ w.stablesList
  | .object obj => obj ∈ w.objectsList
  | .code code => code ∈ w.codesList
  | .context ctx => ctx ∈ w.contextsList

/-- The node is on one of the three work lists. -/
def Queued (w : Writer) : Node → Prop
  | .code _ => False
  | node => w.Listed node

/-- The node is in a context, and in its list if it is the context being serialized. -/
def Settled (w : Writer) (node : Node) : Prop :=
  ∃ sc, w.scOf node = some sc ∧ (sc = w.sc → w.Listed node)

end Writer

/-- What a context index in a row stands for. -/
inductive DescribesOuter (world : World) (w : Writer) : Option Ctx → Int → Prop
  | nothing (ctx : Option Ctx) : world.outerMentions ctx = [] → DescribesOuter world w ctx 0
  | listed (ctx : Ctx) (i : Nat) : w.contextsList[i]? = some ctx →
      DescribesOuter world w (some ctx) (int4 i + 1)

inductive DescribesCodeObject (world : World) (w : Writer) : Option Obj → Option (Int × Int) → Prop
  | nothing : DescribesCodeObject world w none none
  | denoted (obj : Obj) (scId idx : Int) : Writer.DenotesObject world w scId idx obj →
      DescribesCodeObject world w (some obj) (some (scId, idx))

/-- The row of a closure leads to its static code, its outer context and its code
object. -/
structure DescribesClosure (world : World) (w : Writer) (closure : Code) (row : ClosureRow) :
    Prop where
  staticCode : ∃ staticCode,
    Writer.closureToStaticCodeRef world closure true = .ok (some staticCode) ∧
      Writer.DenotesCode world w row.staticSc row.staticIdx staticCode
  outer : DescribesOuter world w
    (if (world.code closure).compilerStub then none else (world.code closure).outerCtx)
    row.contextIdx
  codeObject : DescribesCodeObject world w (world.code closure).codeObject row.codeObject

/-- The code references after the initial ones are the closures of the closures table,
in its order. -/
def ClosureRows (world : World) (roots : Roots) (w : Writer) : Prop :=
  ∃ closures, w.codesList = roots.codes ++ closures ∧
    (Bounded world w → List.Forall₂ (DescribesClosure world w) closures w.closuresTable)

variable {world : World} {roots : Roots}

section

variable {before after : Writer}

section
variable (grown : Grown before after) {row : ClosureRow} {closure : Code}
include grown

theorem DescribesOuter.of_grown {ctx : Option Ctx} {idx : Int}
    (describes : DescribesOuter world before ctx idx) : DescribesOuter world after ctx idx := by
  cases describes with
  | nothing _ notCounted => exact DescribesOuter.nothing ctx notCounted
  | listed ctx i known =>
    exact DescribesOuter.listed ctx i (getElem?_of_pre grown.contexts known)

theorem DescribesCodeObject.of_grown {obj : Option Obj} {info : Option (Int × Int)}
    (describes : DescribesCodeObject world before obj info) :
    DescribesCodeObject world after obj info := by
  cases describes with
  | nothing => exact DescribesCodeObject.nothing
  | denoted obj scId idx denotes =>
    exact DescribesCodeObject.denoted obj scId idx (denotes.of_grown grown)

theorem DescribesClosure.of_grown (describes : DescribesClosure world before closure row) :
    DescribesClosure world after closure row where
  staticCode := by
    obtain ⟨staticCode, isStatic, denotes⟩ := describes.staticCode
    exact ⟨staticCode, isStatic, denotes.of_grown grown⟩
  outer := describes.outer.of_grown grown
  codeObject := describes.codeObject.of_grown grown

theorem ClosureRows.of_same (codes : after.codesList = before.codesList)
    (table : after.closuresTable = before.closuresTable) (rows : ClosureRows world roots before) :
    ClosureRows world roots after := by
  obtain ⟨closures, split, described⟩ := rows
  refine ⟨closures, codes.trans split, ?_⟩
  intro bounded
  rw [table]
  exact (described (bounded.of_grown grown)).imp fun _ _ row => row.of_grown grown

theorem ClosureRows.push (codes : after.codesList = before.codesList ++ [closure])
    (table : after.closuresTable = before.closuresTable ++ [row])
    (describes : Bounded world after → DescribesClosure world after closure row)
    (rows : ClosureRows world roots before) : ClosureRows world roots after := by
  obtain ⟨closures, split, described⟩ := rows
  refine ⟨closures ++ [closure], ?_, ?_⟩
  · rw [codes, split, append_assoc]
  intro bounded
  rw [table]
  exact rel_append
    ((described (bounded.of_grown grown)).imp fun _ _ row => row.of_grown grown)
    (List.Forall₂.cons (describes bounded) List.Forall₂.nil)

end

end

/-- What holds of the contexts of nodes and the work lists at any time. -/
structure Ledger (world : World) (roots : Roots) (w : Writer) : Prop where
  sc : w.sc = roots.sc
  kept : ∀ node sc, roots.scOf node = some sc → w.scOf node = some sc
  claimed : ∀ node, roots.scOf node = none → w.scOf node = none ∨ w.scOf node = some w.sc
  owned : ∀ node, w.Queued node → w.scOf node = some w.sc
  stablesOnce : w.stablesList.Nodup
  objectsOnce : w.objectsList.Nodup
  contextsOnce : w.contextsList.Nodup
  /-- The references of a closure are dealt with when the closure is. -/
  closures : ∀ code, roots.scOfCode code = none → w.scOfCode code ≠ none →
    ∀ node ∈ world.references (.code code), w.Settled node
  closureRows : ClosureRows world roots w

/-- The given nodes were met: they are settled, or are on the work lists. -/
structure Discovers (world : World) (roots : Roots) (before after : Writer)
    (nodes : List Node) : Prop where
  grown : Grown before after
  keeps : ∀ node sc, before.scOf node = some sc → after.scOf node = some sc
  ledger : Ledger world roots before → Ledger world roots after
  settled : ∀ node ∈ nodes, after.Settled node
  within : Ledger world roots before → ∀ inside : Node → Prop,
    (∀ code, roots.scOfCode code = none → inside (.code code) →
      ∀ node ∈ world.references (.code code), inside node) →
    (∀ node ∈ nodes, inside node) → (∀ node, before.Queued node → inside node) →
    ∀ node, after.Queued node → inside node

section

variable {first second third : Writer} {node : Node} {nodes : List Node}

theorem Grown.listed (grown : Grown first second) (listed : first.Listed node) :
    second.Listed node := by
  cases node with
  | stable st => exact grown.stables.subset listed
  | object obj => exact grown.objects.subset listed
  | code code => exact grown.codes.subset listed
  | context ctx => exact grown.contexts.subset listed

theorem Writer.Settled.mono (grown : Grown first second)
    (keeps : ∀ node sc, first.scOf node = some sc → second.scOf node = some sc)
    (settled : first.Settled node) : second.Settled node := by
  obtain ⟨sc, isIn, listed⟩ := settled
  exists sc, keeps node sc isIn
  intro current
  exact grown.listed (listed (current.trans grown.sc))

theorem Discovers.settled_of (discovers : Discovers world roots first second nodes)
    (settled : first.Settled node) : second.Settled node :=
  settled.mono discovers.grown discovers.keeps

theorem Discovers.trans {left right : List Node} (earlier : Discovers world roots first second left)
    (later : Discovers world roots second third right) :
    Discovers world roots first third (left ++ right) where
  grown := earlier.grown.trans later.grown
  keeps := fun node sc isIn => later.keeps node sc (earlier.keeps node sc isIn)
  ledger := fun ledger => later.ledger (earlier.ledger ledger)
  settled := by
    intro node member
    rcases mem_append.mp member with inLeft | inRight
    · exact later.settled_of (earlier.settled node inLeft)
    · exact later.settled node inRight
  within := by
    intro ledger inside closed met queued
    apply later.within (earlier.ledger ledger) inside closed
    · exact fun node member => met node (mem_append_right left member)
    · exact earlier.within ledger inside closed
        (fun node member => met node (mem_append_left right member)) queued

theorem Discovers.and_settled
    (discovers : Discovers world roots first second nodes) (settled : second.Settled node) :
    Discovers world roots first second (nodes ++ [node]) where
  grown := discovers.grown
  keeps := discovers.keeps
  ledger := discovers.ledger
  settled := by
    intro other member
    rcases mem_append.mp member with met | same
    · exact discovers.settled other met
    · rw [mem_singleton.mp same]
      exact settled
  within := by
    intro ledger inside closed met
    exact discovers.within ledger inside closed
      fun other member => met other (mem_append_left [node] member)

/-- Nothing was put into a context or onto a list. -/
structure Unclaimed (before after : Writer) : Prop where
  scOf : ∀ node, after.scOf node = before.scOf node
  stables : after.stablesList = before.stablesList
  objects : after.objectsList = before.objectsList
  codes : after.codesList = before.codesList
  contexts : after.contextsList = before.contextsList
  closures : after.closuresTable = before.closuresTable

theorem Unclaimed.refl (w : Writer) : Unclaimed w w :=
  ⟨fun _ => rfl, rfl, rfl, rfl, rfl, rfl⟩

theorem Unclaimed.trans (left : Unclaimed first second) (right : Unclaimed second third) :
    Unclaimed first third where
  scOf := fun node => (right.scOf node).trans (left.scOf node)
  stables := right.stables.trans left.stables
  objects := right.objects.trans left.objects
  codes := right.codes.trans left.codes
  contexts := right.contexts.trans left.contexts
  closures := right.closures.trans left.closures

theorem Unclaimed.listed (unclaimed : Unclaimed first second) (node : Node) :
    second.Listed node ↔ first.Listed node := by
  cases node with
  | stable st => rw [Writer.Listed, Writer.Listed, unclaimed.stables]
  | object obj => rw [Writer.Listed, Writer.Listed, unclaimed.objects]
  | code code => rw [Writer.Listed, Writer.Listed, unclaimed.codes]
  | context ctx => rw [Writer.Listed, Writer.Listed, unclaimed.contexts]

theorem Unclaimed.queued (unclaimed : Unclaimed first second)
    (queued : second.Queued node) : first.Queued node := by
  cases node with
  | stable st => exact (unclaimed.listed (.stable st)).mp queued
  | object obj => exact (unclaimed.listed (.object obj)).mp queued
  | code code => exact queued
  | context ctx => exact (unclaimed.listed (.context ctx)).mp queued

theorem Discovers.of_unclaimed (grown : Grown first second)
    (unclaimed : Unclaimed first second) : Discovers world roots first second [] where
  grown := grown
  keeps := fun node sc isIn => (unclaimed.scOf node).trans isIn
  ledger := by
    intro ledger
    constructor
    · exact grown.sc.trans ledger.sc
    · exact fun node sc isIn => (unclaimed.scOf node).trans (ledger.kept node sc isIn)
    · intro node free
      rw [unclaimed.scOf, grown.sc]
      exact ledger.claimed node free
    · intro node queued
      rw [unclaimed.scOf, grown.sc]
      exact ledger.owned node (unclaimed.queued queued)
    · exact unclaimed.stables ▸ ledger.stablesOnce
    · exact unclaimed.objects ▸ ledger.objectsOnce
    · exact unclaimed.contexts ▸ ledger.contextsOnce
    · intro code free isIn node member
      have before : first.scOfCode code ≠ none := by
        rw [← show second.scOfCode code = first.scOfCode code from unclaimed.scOf (.code code)]
        exact isIn
      apply (ledger.closures code free before node member).mono grown
      exact fun other sc otherIn => (unclaimed.scOf other).trans otherIn
    · exact ledger.closureRows.of_same grown unclaimed.codes unclaimed.closures
  settled := nofun
  within := fun _ _ _ _ before node queued => before node (unclaimed.queued queued)

/-- The node was in no context; it was put into the one being serialized and onto its
list. -/
structure Claims (before after : Writer) (node : Node) : Prop where
  fresh : before.scOf node = none
  isIn : after.scOf node = some before.sc
  others : ∀ other, other ≠ node → after.scOf other = before.scOf other
  listed : ∀ other, after.Listed other ↔ before.Listed other ∨ other = node
  stablesOnce : (∀ st, node = .stable st → st ∉ before.stablesList) →
    before.stablesList.Nodup → after.stablesList.Nodup
  objectsOnce : (∀ obj, node = .object obj → obj ∉ before.objectsList) →
    before.objectsList.Nodup → after.objectsList.Nodup
  contextsOnce : (∀ ctx, node = .context ctx → ctx ∉ before.contextsList) →
    before.contextsList.Nodup → after.contextsList.Nodup

theorem Claims.keeps (claims : Claims first second node) (other : Node) (sc : Sc)
    (isIn : first.scOf other = some sc) : second.scOf other = some sc := by
  by_cases same : other = node
  · rw [same, claims.fresh] at isIn
    cases isIn
  · rw [claims.others other same]
    exact isIn

theorem Claims.queued {other : Node} (claims : Claims first second node)
    (queued : second.Queued other) : first.Queued other ∨ other = node := by
  cases other with
  | stable st => exact (claims.listed (.stable st)).mp queued
  | object obj => exact (claims.listed (.object obj)).mp queued
  | code code => exact .inl queued
  | context ctx => exact (claims.listed (.context ctx)).mp queued

theorem Claims.discovers (grown : Grown first second) (claims : Claims first second node)
    (closure : ∀ code, node = .code code → ∀ other ∈ world.references node, second.Settled other)
    (closureRows : ClosureRows world roots first → ClosureRows world roots second) :
    Discovers world roots first second [node] where
  grown := grown
  keeps := claims.keeps
  ledger := by
    intro ledger
    have new : ∀ other, first.Queued other → other ≠ node := by
      intro other queued same
      have owned := ledger.owned other queued
      rw [same, claims.fresh] at owned
      cases owned
    constructor
    · exact grown.sc.trans ledger.sc
    · exact fun other sc isIn => claims.keeps other sc (ledger.kept other sc isIn)
    · intro other free
      rw [grown.sc]
      by_cases same : other = node
      · exact .inr (same ▸ claims.isIn)
      · rw [claims.others other same]
        exact ledger.claimed other free
    · intro other queued
      rw [grown.sc]
      rcases claims.queued queued with before | same
      · rw [claims.others other (new other before)]
        exact ledger.owned other before
      · exact same ▸ claims.isIn
    · exact claims.stablesOnce
        (fun st same listed => new (.stable st) listed same.symm) ledger.stablesOnce
    · exact claims.objectsOnce
        (fun obj same listed => new (.object obj) listed same.symm) ledger.objectsOnce
    · exact claims.contextsOnce
        (fun ctx same listed => new (.context ctx) listed same.symm) ledger.contextsOnce
    · intro code free isIn other member
      by_cases same : Node.code code = node
      · exact closure code same.symm other (same ▸ member)
      have before : first.scOfCode code ≠ none := by
        rw [← show second.scOfCode code = first.scOfCode code from
          claims.others (.code code) same]
        exact isIn
      exact (ledger.closures code free before other member).mono grown claims.keeps
    · exact closureRows ledger.closureRows
  settled := by
    intro other member
    rw [mem_singleton.mp member]
    exact ⟨first.sc, claims.isIn, fun _ => (claims.listed node).mpr (.inr rfl)⟩
  within := by
    intro _ inside _ met before other queued
    rcases claims.queued queued with already | same
    · exact before other already
    · exact met other (mem_singleton.mpr same)

end

end RakudoStar.Serialization
