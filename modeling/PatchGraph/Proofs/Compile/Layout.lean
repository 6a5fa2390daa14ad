import PatchGraph.Compile.Pipeline
import PatchGraph.Proofs.Patch.Canonical
import PatchGraph.Registry.Builtin

/-!
# The layout of a patch does not matter

An editor may write the parts of a patch in any order, and it may keep edges that are switched off. Normalizing forgets both, as long as
ids tell the parts apart (`Patch.normalize_eq`), and a compilation only ever looks at the normalized patch (`compile_congr`). So two
patches with the same parts are compiled to the same program, and the same is said about them (`compile_eq_of_sameParts`).
-/

namespace PatchGraph

/-! ## Parts with distinct ids -/

section SortedById

variable {α : Type} {id : α → String} {xs ys : List α}

/-- Things with distinct ids are all kept. -/
theorem sortedById_perm (hids : (xs.map id).Nodup) : (sortedById id xs).Perm xs := by
  have hnodup : (sortedById id xs).Nodup := (nodup_of_ascending (ascending_sortedById xs)).of_map
  refine (List.perm_ext_iff_of_nodup hnodup hids.of_map).2 fun x => ?_
  rw [mem_sortedById]
  constructor
  · intro hfind
    exact List.mem_of_find?_eq_some hfind
  · intro hx
    have hsome : (xs.find? fun y => id y = id x).isSome = true := List.find?_isSome.2 ⟨x, hx, by simp⟩
    obtain ⟨y, hy⟩ := Option.isSome_iff_exists.1 hsome
    have hid : id y = id x := by simpa using List.find?_some hy
    rw [hy, List.inj_on_of_nodup_map hids (List.mem_of_find?_eq_some hy) hx hid]

/-- Things with distinct ids are sorted in one way only. -/
theorem sortedById_eq_of_perm (h : xs.Perm ys) (hids : (xs.map id).Nodup) : sortedById id xs = sortedById id ys := by
  have hids' : (ys.map id).Nodup := (h.map id).nodup_iff.1 hids
  refine List.Perm.eq_of_pairwise ?_ (ascending_sortedById xs) (ascending_sortedById ys)
    ((sortedById_perm hids).trans (h.trans (sortedById_perm hids').symm))
  intro x y _ _ hlt hgt
  exact absurd (String.lt_trans hlt hgt) (String.lt_irrefl _)

end SortedById

/-! ## The order of edges -/

/-- Edges with distinct keys can be sorted in one way only. -/
theorem Patch.sortedEdges_eq_of_perm {p q : Patch} (h : (p.edges.filter (·.enabled)).Perm (q.edges.filter (·.enabled)))
    (hkeys : ((p.edges.filter (·.enabled)).map Edge.key).Nodup) : p.sortedEdges = q.sortedEdges := by
  refine List.Perm.eq_of_pairwise ?_ p.ordered_sortedEdges q.ordered_sortedEdges
    ((List.mergeSort_perm _ _).trans (h.trans (List.mergeSort_perm _ _).symm))
  intro a b ha hb hab hba
  rw [sortedEdges, List.mem_mergeSort] at ha hb
  have hkey := Edge.key_eq_of_order (Std.OrientedCmp.isLE_antisymm hab hba)
  exact List.inj_on_of_nodup_map hkeys ha (h.mem_iff.2 hb) hkey

/-! ## Patches with the same parts -/

/-- Two patches with the same settings, blocks, buses and enabled edges, in any order. -/
structure Patch.SameParts (p q : Patch) : Prop where
  settings : p.settings = q.settings
  blocks : p.blocks.Perm q.blocks
  buses : p.buses.Perm q.buses
  edges : (p.edges.filter (·.enabled)).Perm (q.edges.filter (·.enabled))

/-- Blocks and buses have distinct ids, and enabled edges have distinct sort keys and ids. -/
structure Patch.Distinguished (p : Patch) : Prop where
  blocks : (p.blocks.map (·.id)).Nodup
  buses : (p.buses.map (·.id)).Nodup
  edges : ((p.edges.filter (·.enabled)).map Edge.key).Nodup

namespace Patch

variable {p q : Patch}

/-- Normalizing forgets the order of the parts, and the edges that are switched off. -/
theorem normalize_eq (h : p.SameParts q) (hp : p.Distinguished) (r : Registry) : p.normalize r = q.normalize r := by
  have hblocks : p.sortedBlocks = q.sortedBlocks := sortedById_eq_of_perm h.blocks hp.blocks
  have hbuses : p.sortedBuses = q.sortedBuses := sortedById_eq_of_perm h.buses hp.buses
  have hedges : p.sortedEdges = q.sortedEdges := sortedEdges_eq_of_perm h.edges hp.edges
  exact normalize_congr hblocks hbuses hedges h.settings r

end Patch

/-! ## A compilation looks at the normalized patch only -/

namespace Compilation

/-- The compilation of another patch, at the same point. -/
def withPatch (c : Compilation) (q : Patch) : Compilation := { c with patch := q }

variable {c c' : Compilation} {q : Patch} {s : Stage} {ds : List Diagnostic}

theorem record_withPatch (c : Compilation) (q : Patch) (s : Stage) (ds : List Diagnostic) :
    (c.withPatch q).record s ds = (c.record s ds).withPatch q := rfl

/-- A stage does the same with another patch that is normalized to the same. -/
theorem execute_withPatch (h : ∀ r, q.normalize r = c.patch.normalize r) (s : Stage) :
    (c.withPatch q).execute s = (c.execute s).map fun x => (x.1.withPatch q, x.2) := by
  have hartifacts : (c.withPatch q).artifacts = c.artifacts := rfl
  have hregistry : (c.withPatch q).registry = c.registry := rfl
  have hbuilder : (c.withPatch q).builder = c.builder := rfl
  cases s with
  | normalize =>
    simp only [execute, normalize, withPatch, Option.map_some, h]
  | typeGraph | depGraph =>
    simp only [execute, hartifacts]
    cases c.artifacts.normalized <;> rfl
  | timeTopology =>
    simp only [execute, hartifacts]
    cases c.artifacts.normalized with
    | none => rfl
    | some n =>
      simp only [Option.bind_eq_bind, Option.bind_some, timeTopology, hregistry]
      cases Time.resolve n c.registry <;> rfl
  | cycleCheck =>
    simp only [execute, hartifacts]
    cases c.artifacts.normalized <;> cases c.artifacts.graph <;> rfl
  | lowerBlocks =>
    simp only [execute, hartifacts, hregistry]
    cases c.artifacts.analysis? c.registry <;> cases c.artifacts.consts <;> rfl
  | lowerBuses =>
    simp only [execute, hartifacts, hregistry, hbuilder]
    cases c.artifacts.analysis? c.registry <;> cases c.builder <;> cases c.artifacts.busSlots <;> cases c.artifacts.lowered <;> rfl
  | link =>
    simp only [execute, hartifacts, hregistry, hbuilder]
    cases c.artifacts.analysis? c.registry <;> cases c.builder <;> cases c.artifacts.busSlots <;> cases c.artifacts.lowered <;>
      cases c.artifacts.buses <;> rfl

/-- A stage does not change what is compiled. -/
theorem patch_of_execute (h : c.execute s = some (c', ds)) : c'.patch = c.patch := by
  have hsame := execute_withPatch (c := c) (fun _ => rfl) s
  rw [show c.withPatch c.patch = c from rfl, h] at hsame
  exact congrArg (fun x : Compilation × List Diagnostic => x.1.patch) (Option.some.inj hsame)

/-- A run of stages is the same with another patch that is normalized to the same. -/
theorem runStages_withPatch (stages : List Stage) (h : ∀ r, q.normalize r = c.patch.normalize r) :
    runStages stages (c.withPatch q) = { runStages stages c with state := (runStages stages c).state.withPatch q } := by
  induction stages generalizing c with
  | nil => rfl
  | cons s rest ih =>
    simp only [runStages, execute_withPatch h]
    cases he : c.execute s with
    | none => rfl
    | some x =>
      obtain ⟨c', ds⟩ := x
      have hnormal : ∀ r, q.normalize r = (c'.record s ds).patch.normalize r := by
        intro r
        rw [h r, ← patch_of_execute he]
        rfl
      simp only [Option.map_some, record_withPatch, ih hnormal]
      split <;> rfl

end Compilation

/-- Patches that are normalized to the same are compiled to the same. -/
theorem compile_congr {p q : Patch} (h : ∀ r, p.normalize r = q.normalize r) (r : Registry) (options : Options) :
    compile p r options = compile q r options := by
  have hrun : Compilation.runStages (Stage.required .link) { patch := q, registry := r, options } = _ :=
    Compilation.runStages_withPatch (c := { patch := p, registry := r, options }) (Stage.required .link) fun r => (h r).symm
  unfold compile Compilation.run
  rw [hrun]
  rfl

/-- The layout of a patch does not matter: patches with the same parts, told apart by their ids, are compiled to the same program, with
the same diagnostics in the same order and the same failure. -/
theorem compile_eq_of_sameParts {p q : Patch} (h : p.SameParts q) (hp : p.Distinguished) (r : Registry) (options : Options) :
    compile p r options = compile q r options :=
  compile_congr (Patch.normalize_eq h hp) r options

/-- The sine of a constant, published to one of two buses. -/
def drawnForwards : Patch where
  blocks := [⟨"a", "Const", {}, {}⟩, ⟨"s", "Sin", {}, {}⟩, ⟨"t", "InfiniteTimeRoot", {}, {}⟩]
  edges := [{ id := "e1", source := .port "a" "out", target := .port "s" "in" },
    { id := "e2", source := .port "s" "out", target := .bus "k" }]
  buses := [{ id := "k", type := "Signal<float>" }, { id := "l", type := "Signal<float>" }]

/-- The same patch written from its end, with an edge that is switched off. -/
def drawnBackwards : Patch where
  blocks := [⟨"t", "InfiniteTimeRoot", {}, {}⟩, ⟨"s", "Sin", {}, {}⟩, ⟨"a", "Const", {}, {}⟩]
  edges := [{ id := "e2", source := .port "s" "out", target := .bus "k" },
    { id := "e2", source := .port "a" "out", target := .bus "l", enabled := false },
    { id := "e1", source := .port "a" "out", target := .port "s" "in" }]
  buses := [{ id := "l", type := "Signal<float>" }, { id := "k", type := "Signal<float>" }]

theorem compile_eq_of_sameParts_drawn :
    drawnForwards ≠ drawnBackwards ∧ drawnForwards.SameParts drawnBackwards ∧ drawnForwards.Distinguished
      ∧ compile drawnForwards .builtin {} = compile drawnBackwards .builtin {} := by
  have hsame : drawnForwards.SameParts drawnBackwards := ⟨rfl, by decide, by decide, by decide⟩
  have hdistinct : drawnForwards.Distinguished := ⟨by decide, by decide, by decide⟩
  exact ⟨by decide, hsame, hdistinct, compile_eq_of_sameParts hsame hdistinct .builtin {}⟩

end PatchGraph
