import Realm.DepPart.Ops

/-!
# `CircuitTest`: private, shared and ghost nodes of a random circuit

`CircuitTest` of `deppart.cc` builds a graph whose node colors (`subckt_id`) and edge
endpoints are functions of the point and of a counter-based generator
(`random_node_data`, `random_edge_data`), so that `check_partitioning` can regenerate what
any point holds without reading the instances. `perform_partitioning` computes from the
field data the edges of each piece (a preimage), the ghost nodes of each piece (an image
less the piece's own nodes), and the shared and private nodes.

`circuit_check_exact`: when each operation computes its set meaning, the checker counts no
error exactly when the partitions agree with what the operations compute, for every
configuration with `0 < num_pieces ≤ num_nodes` whose `int` arithmetic does not overflow,
every seed, both coloring modes and every generator.
-/

namespace Realm.DepPart

/-- `CircuitTest::PRNGStreams`. -/
inductive PRNGStream where
  | nodeSubckt
  | edgeInNode
  | edgeOutNode1
  | edgeOutNode2
  deriving DecidableEq, Repr

/-- `Philox_2x32<>::rand_int(seed, idx, stream, n)` of `philox.h`, by its contract: for
`n > 0`, a value in `[0, n)` that depends on the arguments only. -/
structure RandInt where
  randInt : Int → Int → PRNGStream → Int → Int
  range : ∀ seed idx s n, 0 < n → 0 ≤ randInt seed idx s n ∧ randInt seed idx s n < n

/-- The global options `random_seed` (`-seed`) and `random_colors` (`-random`). -/
structure Globals where
  randomSeed : Int := 12345
  randomColors : Bool := false

/-- The parameters of `CircuitTest`, with their `WithDefault` values. -/
structure CircuitTest where
  numNodes : Int := 100
  numEdges : Int := 10
  numPieces : Int := 2
  pctWireInPiece : Int := 50

namespace CircuitTest

section Model

variable (g : Globals) (rng : RandInt) (t : CircuitTest)

/-- `CircuitTest::random_node_data`: the subcircuit of node `idx`. The test's `int` product
`idx * num_pieces` is an `Int` here; `circuit_check_exact` bounds the configuration so that it
does not overflow. -/
def randomNodeData (idx : Int) : Int :=
  if g.randomColors then rng.randInt g.randomSeed idx .nodeSubckt t.numPieces
  else idx * t.numPieces / t.numNodes

/-- `CircuitTest::random_edge_data`: the input and output node of edge `idx`, its `int`
products taken over `Int` as in `randomNodeData`. -/
def randomEdgeData (idx : Int) : Int × Int :=
  if g.randomColors then
    (rng.randInt g.randomSeed idx .edgeInNode t.numNodes,
      rng.randInt g.randomSeed idx .edgeOutNode1 t.numNodes)
  else
    let subckt := idx * t.numPieces / t.numEdges
    let nLo := subckt * t.numNodes / t.numPieces
    let nHi := (subckt + 1) * t.numNodes / t.numPieces
    let inNode := nLo + rng.randInt g.randomSeed idx .edgeInNode (nHi - nLo)
    let pct := rng.randInt g.randomSeed idx .edgeOutNode2 100
    (inNode,
      if pct < t.pctWireInPiece then
        nLo + rng.randInt g.randomSeed idx .edgeOutNode1 (nHi - nLo)
      else rng.randInt g.randomSeed idx .edgeOutNode1 t.numNodes)

/-- The field data of the instances: `subckt_id` of the nodes, `in_node` and `out_node` of the
edges. -/
structure Fields where
  subcktId : Int → Int
  inNode : Int → Int
  outNode : Int → Int

/-- What the `init_data_task`s write. Each writes the points of its own piece of the equal
partition, and what it writes at a point depends on the point only. -/
def initData : Fields :=
  ⟨randomNodeData g rng t, fun i => (randomEdgeData g rng t i).1,
    fun i => (randomEdgeData g rng t i).2⟩

/-- `is_nodes`. -/
def isNodes : Space := rect 0 (t.numNodes - 1)

/-- `is_edges`. -/
def isEdges : Space := rect 0 (t.numEdges - 1)

/-- The outputs of `perform_partitioning`. -/
structure Partitions where
  pEdges : List Space
  pGhost : List Space
  isShared : Space
  isPrivate : Space
  pShr : List Space
  pPvt : List Space

/-- `CircuitTest::perform_partitioning`. -/
def performPartitioning (d : Fields) : Partitions :=
  let pNodes := subspacesByField t.isNodes d.subcktId (points t.numPieces)
  let pEdges := subspacesByPreimage t.isEdges d.inNode pNodes
  let pExtraNodes := subspacesByImage t.isNodes d.outNode (points t.numEdges) pEdges
  let pGhost := differences pExtraNodes pNodes
  let isShared := union pGhost
  let isPrivate := difference t.isNodes isShared
  { pEdges, pGhost, isShared, isPrivate,
    pShr := intersections pNodes isShared
    pPvt := intersections pNodes isPrivate }

/-- `for(int p = 0; p < num_pieces; p++) if(exp != act) errors++;`: the errors such a loop
counts. -/
def mismatches (exp act : Int → Bool) : Nat :=
  (points t.numPieces).countP fun p => exp p != act p

/-- One iteration of the edge loop of `check_partitioning`. The map `ghost_nodes` from a node
to a set of pieces is kept as the pairs inserted into it: `ghost_nodes.count(i)` is whether
some pair has key `i`, and `ghost_nodes[i].count(p)` whether `(i, p)` was inserted. -/
def checkEdge (parts : Partitions) (acc : Nat × List (Int × Int)) (i : Int) :
    Nat × List (Int × Int) :=
  let e := randomEdgeData g rng t i
  let inSubckt := randomNodeData g rng t e.1
  let outSubckt := randomNodeData g rng t e.2
  (acc.1 + t.mismatches (fun p => p == inSubckt) (fun p => nth parts.pEdges p i),
    if inSubckt != outSubckt then acc.2 ++ [(e.2, inSubckt)] else acc.2)

/-- One iteration of the node loop of `check_partitioning`. -/
def checkNode (parts : Partitions) (ghostNodes : List (Int × Int)) (errors : Nat) (i : Int) :
    Nat :=
  let subckt := randomNodeData g rng t i
  let ghost := ghostNodes.any fun e => e.1 == i
  errors + (if (!ghost) != parts.isPrivate i then 1 else 0)
    + (if ghost != parts.isShared i then 1 else 0)
    + t.mismatches (fun p => subckt == p && !ghost) (fun p => nth parts.pPvt p i)
    + t.mismatches (fun p => subckt == p && ghost) (fun p => nth parts.pShr p i)
    + t.mismatches (fun p => subckt != p && ghost && ghostNodes.contains (i, p))
        (fun p => nth parts.pGhost p i)

/-- `CircuitTest::check_partitioning`: the number of errors it reports. -/
def checkPartitioning (parts : Partitions) : Nat :=
  let edges := (points t.numEdges).foldl (checkEdge g rng t parts) (0, [])
  (points t.numNodes).foldl (checkNode g rng t parts edges.2) edges.1

end Model

/-! ### The generator stays in range -/

/-- `idx * pieces / total` is a piece for every index `0 ≤ idx < total`. -/
theorem mul_ediv_mem {idx total pieces : Int} (hp : 0 < pieces) (h0 : 0 ≤ idx)
    (hi : idx < total) : 0 ≤ idx * pieces / total ∧ idx * pieces / total < pieces :=
  ⟨Int.ediv_nonneg (Int.mul_nonneg h0 hp.le) (by omega),
    Int.ediv_lt_of_lt_mul (by omega) (by nlinarith)⟩

/-- The nodes `[s * nodes / pieces, (s + 1) * nodes / pieces)` of piece `s` are a non-empty
range of nodes when there are at least as many nodes as pieces. -/
theorem piece_nodes {s nodes pieces : Int} (hp : 0 < pieces) (hn : pieces ≤ nodes)
    (h0 : 0 ≤ s) (hs : s < pieces) :
    0 ≤ s * nodes / pieces ∧ s * nodes / pieces < (s + 1) * nodes / pieces ∧
      (s + 1) * nodes / pieces ≤ nodes := by
  have hstep : s * nodes / pieces + 1 ≤ (s + 1) * nodes / pieces := by
    rw [← Int.add_mul_ediv_right _ _ hp.ne']
    exact Int.ediv_le_ediv hp (by nlinarith)
  exact ⟨Int.ediv_nonneg (by nlinarith) hp.le, by omega,
    Int.ediv_le_of_le_mul hp (by nlinarith)⟩

section Ranges

variable {g : Globals} (rng : RandInt) {t : CircuitTest}

theorem randomNodeData_mem (hp : 0 < t.numPieces) {i : Int} (h0 : 0 ≤ i) (hi : i < t.numNodes) :
    0 ≤ randomNodeData g rng t i ∧ randomNodeData g rng t i < t.numPieces := by
  unfold randomNodeData
  split
  · exact rng.range _ _ _ _ hp
  · exact mul_ediv_mem hp h0 hi

theorem randomEdgeData_mem (hp : 0 < t.numPieces) (hn : t.numPieces ≤ t.numNodes) {i : Int}
    (h0 : 0 ≤ i) (hi : i < t.numEdges) :
    (0 ≤ (randomEdgeData g rng t i).1 ∧ (randomEdgeData g rng t i).1 < t.numNodes) ∧
      (0 ≤ (randomEdgeData g rng t i).2 ∧ (randomEdgeData g rng t i).2 < t.numNodes) := by
  have hnodes := rng.range g.randomSeed i .edgeOutNode1 t.numNodes (by omega)
  unfold randomEdgeData
  split
  · exact ⟨rng.range _ _ _ _ (by omega), hnodes⟩
  · obtain ⟨hs0, hs⟩ := mul_ediv_mem hp h0 hi
    obtain ⟨hlo, hlt, hhi⟩ := piece_nodes hp hn hs0 hs
    have hin := rng.range g.randomSeed i .edgeInNode _ (Int.sub_pos.2 hlt)
    have hout := rng.range g.randomSeed i .edgeOutNode1 _ (Int.sub_pos.2 hlt)
    dsimp only
    refine ⟨by omega, ?_⟩
    split <;> omega

end Ranges

@[simp] theorem isNodes_apply (t : CircuitTest) (q : Int) :
    t.isNodes q = true ↔ 0 ≤ q ∧ q < t.numNodes := by
  simp [isNodes]
  omega

@[simp] theorem isEdges_apply (t : CircuitTest) (e : Int) :
    t.isEdges e = true ↔ 0 ≤ e ∧ e < t.numEdges := by
  simp [isEdges]
  omega

theorem mismatches_eq_zero_iff (t : CircuitTest) {exp act : Int → Bool} :
    t.mismatches exp act = 0 ↔ ∀ p ∈ points t.numPieces, exp p = act p := by
  simp [mismatches, List.countP_eq_zero]

/-! ### What the pipeline computes, for any field data -/

section Pipeline

variable (t : CircuitTest) (d : Fields) {p : Int} (h0 : 0 ≤ p) (hp : p < t.numPieces)
include h0 hp

theorem nth_pEdges (e : Int) :
    nth (t.performPartitioning d).pEdges p e =
      (t.isEdges e && (t.isNodes (d.inNode e) && decide (d.subcktId (d.inNode e) = p))) := by
  simp only [performPartitioning, subspacesByPreimage, subspacesByField, List.map_map]
  rw [nth_map_points _ h0 hp]
  rfl

theorem nth_pGhost (q : Int) :
    nth (t.performPartitioning d).pGhost p q = true ↔
      (t.isNodes q = true ∧ ∃ e ∈ points t.numEdges, (t.isEdges e = true ∧
        t.isNodes (d.inNode e) = true ∧ d.subcktId (d.inNode e) = p) ∧ d.outNode e = q) ∧
      d.subcktId q ≠ p := by
  simp only [performPartitioning, subspacesByImage, subspacesByPreimage, subspacesByField,
    List.map_map, differences_map]
  rw [nth_map_points _ h0 hp]
  simp only [difference, Function.comp_apply, Bool.and_eq_true, subspaceByImage_apply,
    Bool.not_eq_true', Bool.and_eq_false_imp, decide_eq_true_eq, decide_eq_false_iff_not]
  exact and_congr_right fun h => ⟨fun hc => hc h.1, fun hc _ => hc⟩

theorem nth_pShr (q : Int) :
    nth (t.performPartitioning d).pShr p q =
      (t.isNodes q && decide (d.subcktId q = p) && (t.performPartitioning d).isShared q) := by
  simp only [performPartitioning, intersections, subspacesByField, List.map_map]
  rw [nth_map_points _ h0 hp]
  rfl

theorem nth_pPvt (q : Int) :
    nth (t.performPartitioning d).pPvt p q =
      (t.isNodes q && decide (d.subcktId q = p) && (t.performPartitioning d).isPrivate q) := by
  simp only [performPartitioning, intersections, subspacesByField, List.map_map]
  rw [nth_map_points _ h0 hp]
  rfl

omit h0 hp in
theorem isShared_apply (q : Int) :
    (t.performPartitioning d).isShared q = true ↔
      ∃ p ∈ points t.numPieces, nth (t.performPartitioning d).pGhost p q = true :=
  union_apply_nth (by simp [performPartitioning, differences, subspacesByImage,
    subspacesByPreimage, subspacesByField]) q

end Pipeline

/-! ### The checker agrees with the pipeline on the generated data -/

section Check

variable (g : Globals) (rng : RandInt) (t : CircuitTest)

/-- The pairs the edge loop of `check_partitioning` inserts into `ghost_nodes`, in order. -/
def ghostEntries (l : List Int) : List (Int × Int) :=
  l.filterMap fun i =>
    let e := randomEdgeData g rng t i
    if randomNodeData g rng t e.1 != randomNodeData g rng t e.2 then
      some (e.2, randomNodeData g rng t e.1)
    else none

/-- `parts` agrees with `ref` at every point and piece that `check_partitioning` reads. -/
structure Agrees (parts ref : Partitions) : Prop where
  pEdges : ∀ i ∈ points t.numEdges, ∀ p ∈ points t.numPieces,
    nth parts.pEdges p i = nth ref.pEdges p i
  isPrivate : ∀ i ∈ points t.numNodes, parts.isPrivate i = ref.isPrivate i
  isShared : ∀ i ∈ points t.numNodes, parts.isShared i = ref.isShared i
  pPvt : ∀ i ∈ points t.numNodes, ∀ p ∈ points t.numPieces, nth parts.pPvt p i = nth ref.pPvt p i
  pShr : ∀ i ∈ points t.numNodes, ∀ p ∈ points t.numPieces, nth parts.pShr p i = nth ref.pShr p i
  pGhost : ∀ i ∈ points t.numNodes, ∀ p ∈ points t.numPieces,
    nth parts.pGhost p i = nth ref.pGhost p i

/-! The checker's loops count one error per disagreement: -/

theorem foldl_checkEdge (parts : Partitions) (l : List Int) (acc : Nat × List (Int × Int)) :
    l.foldl (checkEdge g rng t parts) acc =
      (acc.1 + (l.map fun i => t.mismatches
          (fun p => p == randomNodeData g rng t (randomEdgeData g rng t i).1)
          (fun p => nth parts.pEdges p i)).sum,
        acc.2 ++ ghostEntries g rng t l) := by
  induction l generalizing acc with
  | nil => simp [ghostEntries]
  | cons i l ih =>
    rw [List.foldl_cons, ih]
    by_cases hne : randomNodeData g rng t (randomEdgeData g rng t i).1 =
      randomNodeData g rng t (randomEdgeData g rng t i).2 <;>
    simp [checkEdge, ghostEntries, hne, Nat.add_assoc]

theorem checkNode_eq_add (parts : Partitions) (ghostNodes : List (Int × Int)) (errors : Nat)
    (i : Int) :
    checkNode g rng t parts ghostNodes errors i =
      errors + checkNode g rng t parts ghostNodes 0 i := by
  simp only [checkNode]
  omega

theorem foldl_checkNode (parts : Partitions) (ghostNodes : List (Int × Int)) (l : List Int)
    (errors : Nat) :
    l.foldl (checkNode g rng t parts ghostNodes) errors =
      errors + (l.map (checkNode g rng t parts ghostNodes 0)).sum := by
  induction l generalizing errors with
  | nil => simp
  | cons i l ih => rw [List.foldl_cons, ih, checkNode_eq_add]; simp [Nat.add_assoc]

theorem checkPartitioning_eq_zero_iff (parts : Partitions) :
    t.checkPartitioning g rng parts = 0 ↔
      (∀ i ∈ points t.numEdges, ∀ p ∈ points t.numPieces,
        (p == randomNodeData g rng t (randomEdgeData g rng t i).1) = nth parts.pEdges p i) ∧
      ∀ i ∈ points t.numNodes,
        checkNode g rng t parts (ghostEntries g rng t (points t.numEdges)) 0 i = 0 := by
  simp only [checkPartitioning, foldl_checkEdge, foldl_checkNode, Nat.zero_add, List.nil_append,
    Nat.add_eq_zero_iff, List.sum_eq_zero_iff, List.mem_map, forall_exists_index, and_imp,
    forall_apply_eq_imp_iff₂, mismatches_eq_zero_iff]

/-- A loop over the pieces counts at most one error per piece. -/
theorem mismatches_le (exp act : Int → Bool) : t.mismatches exp act ≤ t.numPieces.toNat :=
  (List.countP_le_length _).trans (le_of_eq (length_points _))

/-- The node loop counts at most `2 + 3 * num_pieces` errors for a node. -/
theorem checkNode_le (parts : Partitions) (ghostNodes : List (Int × Int)) (i : Int) :
    checkNode g rng t parts ghostNodes 0 i ≤ 2 + 3 * t.numPieces.toNat := by
  have h1 := t.mismatches_le (fun p => randomNodeData g rng t i == p && !ghostNodes.any fun e => e.1 == i)
    (fun p => nth parts.pPvt p i)
  have h2 := t.mismatches_le (fun p => randomNodeData g rng t i == p && ghostNodes.any fun e => e.1 == i)
    (fun p => nth parts.pShr p i)
  have h3 := t.mismatches_le (fun p => randomNodeData g rng t i != p &&
    (ghostNodes.any fun e => e.1 == i) && ghostNodes.contains (i, p)) (fun p => nth parts.pGhost p i)
  simp only [checkNode]
  split_ifs <;> omega

/-- The checker counts at most one error per piece for each edge, and `2 + 3 * num_pieces`
for each node. -/
theorem checkPartitioning_le (parts : Partitions) :
    t.checkPartitioning g rng parts ≤
      t.numEdges.toNat * t.numPieces.toNat + t.numNodes.toNat * (2 + 3 * t.numPieces.toNat) := by
  have h1 := sum_map_le_mul (points t.numEdges) (fun i => t.mismatches
    (fun p => p == randomNodeData g rng t (randomEdgeData g rng t i).1)
    (fun p => nth parts.pEdges p i)) fun i _ => t.mismatches_le _ _
  have h2 := sum_map_le_mul (points t.numNodes)
    (checkNode g rng t parts (ghostEntries g rng t (points t.numEdges)) 0) fun i _ =>
      checkNode_le g rng t parts _ i
  rw [length_points] at h1 h2
  simp only [checkPartitioning, foldl_checkEdge, foldl_checkNode, Nat.zero_add, List.nil_append]
  omega

theorem checkNode_eq_zero_iff (parts : Partitions) (ghostNodes : List (Int × Int)) (i : Int) :
    checkNode g rng t parts ghostNodes 0 i = 0 ↔
      (!ghostNodes.any fun x => x.1 == i) = parts.isPrivate i ∧
      (ghostNodes.any fun x => x.1 == i) = parts.isShared i ∧
      (∀ p ∈ points t.numPieces, (randomNodeData g rng t i == p &&
        !ghostNodes.any fun x => x.1 == i) = nth parts.pPvt p i) ∧
      (∀ p ∈ points t.numPieces, (randomNodeData g rng t i == p &&
        ghostNodes.any fun x => x.1 == i) = nth parts.pShr p i) ∧
      ∀ p ∈ points t.numPieces, (randomNodeData g rng t i != p &&
        (ghostNodes.any fun x => x.1 == i) && ghostNodes.contains (i, p)) =
          nth parts.pGhost p i := by
  simp only [checkNode, Nat.zero_add, Nat.add_eq_zero_iff, mismatches_eq_zero_iff,
    ite_eq_right_iff, Nat.one_ne_zero, imp_false, bne_iff_ne, ne_eq, not_not, and_assoc]

theorem mem_ghostEntries {l : List Int} {q p : Int} :
    (q, p) ∈ ghostEntries g rng t l ↔ ∃ e ∈ l, (randomEdgeData g rng t e).2 = q ∧
      randomNodeData g rng t (randomEdgeData g rng t e).1 = p ∧ p ≠ randomNodeData g rng t q := by
  simp only [ghostEntries, List.mem_filterMap]
  constructor
  · rintro ⟨e, he, h⟩
    split at h
    · rename_i hne
      obtain ⟨rfl, rfl⟩ := Prod.mk.inj (Option.some.inj h)
      exact ⟨e, he, rfl, rfl, by simpa using hne⟩
    · cases h
  · rintro ⟨e, he, rfl, rfl, hne⟩
    exact ⟨e, he, by simp [hne]⟩

/-! What the checker expects is what the pipeline computes from the generated data: -/

variable {g rng t} (hp : 0 < t.numPieces) (hn : t.numPieces ≤ t.numNodes)
include hp hn

theorem expect_pEdges {i p : Int} (hi : i ∈ points t.numEdges) (hpm : p ∈ points t.numPieces) :
    (p == randomNodeData g rng t (randomEdgeData g rng t i).1) =
      nth (t.performPartitioning (t.initData g rng)).pEdges p i := by
  rw [mem_points] at hi hpm
  have hE := (isEdges_apply t i).2 hi
  have hN := (isNodes_apply t _).2 (randomEdgeData_mem (g := g) rng hp hn hi.1 hi.2).1
  simp only [initData] at hN ⊢
  simp only [nth_pEdges _ _ hpm.1 hpm.2, hE, hN, Bool.true_and, eq_comm]
  rfl

theorem expect_isShared {q : Int} (hq : q ∈ points t.numNodes) :
    ((ghostEntries g rng t (points t.numEdges)).any fun x => x.1 == q) =
      (t.performPartitioning (t.initData g rng)).isShared q := by
  rw [Bool.eq_iff_iff, isShared_apply, List.any_eq_true]
  constructor
  · rintro ⟨⟨q', p⟩, hmem, hq'⟩
    obtain rfl : q' = q := by simpa using hq'
    obtain ⟨e, he, hout, hce, hne⟩ := (mem_ghostEntries g rng t).1 hmem
    have hE := mem_points.1 he
    have hin := (randomEdgeData_mem (g := g) rng hp hn hE.1 hE.2).1
    have hpm := randomNodeData_mem (g := g) rng hp hin.1 hin.2
    rw [hce] at hpm
    refine ⟨p, mem_points.2 hpm, (nth_pGhost _ _ hpm.1 hpm.2 q').2
      ⟨⟨(isNodes_apply t q').2 (mem_points.1 hq), e, he, ⟨(isEdges_apply t e).2 hE,
        (isNodes_apply t _).2 hin, hce⟩, hout⟩, Ne.symm hne⟩⟩
  · rintro ⟨p, hpm, hg⟩
    rw [mem_points] at hpm
    obtain ⟨⟨-, e, he, ⟨-, -, hce⟩, hout⟩, hne⟩ := (nth_pGhost _ _ hpm.1 hpm.2 q).1 hg
    exact ⟨(q, p), (mem_ghostEntries g rng t).2 ⟨e, he, hout, hce, Ne.symm hne⟩, by simp⟩

theorem expect_isPrivate {q : Int} (hq : q ∈ points t.numNodes) :
    (!(ghostEntries g rng t (points t.numEdges)).any fun x => x.1 == q) =
      (t.performPartitioning (t.initData g rng)).isPrivate q := by
  rw [expect_isShared hp hn hq]
  simp [performPartitioning, difference, (isNodes_apply t q).2 (mem_points.1 hq)]

theorem expect_pPvt {i p : Int} (hi : i ∈ points t.numNodes) (hpm : p ∈ points t.numPieces) :
    (randomNodeData g rng t i == p &&
      !(ghostEntries g rng t (points t.numEdges)).any fun x => x.1 == i) =
      nth (t.performPartitioning (t.initData g rng)).pPvt p i := by
  rw [mem_points] at hpm
  rw [nth_pPvt _ _ hpm.1 hpm.2, (isNodes_apply t i).2 (mem_points.1 hi), ← expect_isPrivate hp hn hi]
  rfl

theorem expect_pShr {i p : Int} (hi : i ∈ points t.numNodes) (hpm : p ∈ points t.numPieces) :
    (randomNodeData g rng t i == p &&
      (ghostEntries g rng t (points t.numEdges)).any fun x => x.1 == i) =
      nth (t.performPartitioning (t.initData g rng)).pShr p i := by
  rw [mem_points] at hpm
  rw [nth_pShr _ _ hpm.1 hpm.2, (isNodes_apply t i).2 (mem_points.1 hi), ← expect_isShared hp hn hi]
  rfl

theorem expect_pGhost {i p : Int} (hi : i ∈ points t.numNodes) (hpm : p ∈ points t.numPieces) :
    (randomNodeData g rng t i != p &&
      ((ghostEntries g rng t (points t.numEdges)).any fun x => x.1 == i) &&
      (ghostEntries g rng t (points t.numEdges)).contains (i, p)) =
      nth (t.performPartitioning (t.initData g rng)).pGhost p i := by
  rw [mem_points] at hpm
  rw [Bool.eq_iff_iff, nth_pGhost _ _ hpm.1 hpm.2]
  simp only [initData, Bool.and_eq_true, bne_iff_ne, List.any_eq_true, beq_iff_eq,
    List.elem_iff, List.contains]
  constructor
  · rintro ⟨⟨hne, -⟩, hmem⟩
    obtain ⟨e, he, hout, hce, -⟩ := (mem_ghostEntries g rng t).1 hmem
    have hE := mem_points.1 he
    have hin := (randomEdgeData_mem (g := g) rng hp hn hE.1 hE.2).1
    exact ⟨⟨(isNodes_apply t i).2 (mem_points.1 hi), e, he,
      ⟨(isEdges_apply t e).2 hE, (isNodes_apply t _).2 hin, hce⟩, hout⟩, hne⟩
  · rintro ⟨⟨-, e, he, ⟨-, -, hce⟩, hout⟩, hne⟩
    have hmem := (mem_ghostEntries g rng t).2 ⟨e, he, hout, hce, Ne.symm hne⟩
    exact ⟨⟨hne, _, hmem, rfl⟩, hmem⟩

end Check

/-- `check_partitioning` reports no error exactly when the partitions agree with what the
partitioning operations compute from the generated data, at every point and piece it reads:
the checker neither misses a wrong subspace nor reports a right one, for every
configuration with `0 < num_pieces ≤ num_nodes`, seed, coloring mode and generator. The test
computes in 32-bit `int`: the configuration is small enough that the checker's error count,
at most `num_pieces` per edge and `2 + 3 * num_pieces` per node, stays below `2^31`, and that
bound also keeps `idx * num_pieces` and `subckt * num_nodes` of the generators in range. -/
theorem circuit_check_exact (g : Globals) (rng : RandInt) (t : CircuitTest)
    (hp : 0 < t.numPieces) (hn : t.numPieces ≤ t.numNodes)
    (hfit : t.numEdges.toNat * t.numPieces.toNat + t.numNodes.toNat * (2 + 3 * t.numPieces.toNat) <
      2 ^ 31)
    (parts : Partitions) :
    (t.checkPartitioning g rng parts = 0 ↔
      t.Agrees parts (t.performPartitioning (t.initData g rng))) ∧
    t.checkPartitioning g rng parts < 2 ^ 31 := by
  refine ⟨?_, (checkPartitioning_le g rng t parts).trans_lt hfit⟩
  simp only [checkPartitioning_eq_zero_iff, checkNode_eq_zero_iff]
  constructor
  · rintro ⟨hE, hN⟩
    exact ⟨fun i hi p hpm => (hE i hi p hpm).symm.trans (expect_pEdges hp hn hi hpm),
      fun i hi => (hN i hi).1.symm.trans (expect_isPrivate hp hn hi),
      fun i hi => (hN i hi).2.1.symm.trans (expect_isShared hp hn hi),
      fun i hi p hpm => ((hN i hi).2.2.1 p hpm).symm.trans (expect_pPvt hp hn hi hpm),
      fun i hi p hpm => ((hN i hi).2.2.2.1 p hpm).symm.trans (expect_pShr hp hn hi hpm),
      fun i hi p hpm => ((hN i hi).2.2.2.2 p hpm).symm.trans (expect_pGhost hp hn hi hpm)⟩
  · intro h
    exact ⟨fun i hi p hpm => (expect_pEdges hp hn hi hpm).trans (h.pEdges i hi p hpm).symm,
      fun i hi => ⟨(expect_isPrivate hp hn hi).trans (h.isPrivate i hi).symm,
        (expect_isShared hp hn hi).trans (h.isShared i hi).symm,
        fun p hpm => (expect_pPvt hp hn hi hpm).trans (h.pPvt i hi p hpm).symm,
        fun p hpm => (expect_pShr hp hn hi hpm).trans (h.pShr i hi p hpm).symm,
        fun p hpm => (expect_pGhost hp hn hi hpm).trans (h.pGhost i hi p hpm).symm⟩⟩

/-- The default configuration (100 nodes, 10 edges, 2 pieces, seed 12345) passes its check
when the runtime computes the partitions right, whatever the generator. -/
theorem circuit_check_exact_defaults : ∃ rng : RandInt,
    (0 < ({} : CircuitTest).numPieces ∧ ({} : CircuitTest).numPieces ≤ ({} : CircuitTest).numNodes ∧
      ({} : CircuitTest).numEdges.toNat * ({} : CircuitTest).numPieces.toNat +
        ({} : CircuitTest).numNodes.toNat * (2 + 3 * ({} : CircuitTest).numPieces.toNat) < 2 ^ 31) ∧
      ({} : CircuitTest).checkPartitioning {} rng
        (({} : CircuitTest).performPartitioning (({} : CircuitTest).initData {} rng)) = 0 :=
  ⟨⟨fun _ idx _ n => idx % n, fun _ _ _ _ hn => ⟨Int.emod_nonneg _ hn.ne', Int.emod_lt_of_pos _ hn⟩⟩,
    ⟨by decide, by decide, by decide⟩,
    (circuit_check_exact {} _ {} (by decide) (by decide) (by decide) _).1.2
      ⟨fun _ _ _ _ => rfl, fun _ _ => rfl, fun _ _ => rfl, fun _ _ _ _ => rfl,
        fun _ _ _ _ => rfl, fun _ _ _ _ => rfl⟩⟩

end CircuitTest

end Realm.DepPart
