import Mathlib.Algebra.BigOperators.Group.Finset.Basic
import Orphans.Proofs.DistinctKeys

/-! The import graph of a result.

The edges of a result and its lists of files come from different stages of a run. The graph shows that they
agree: an edge never leaves the listed files, the importers counted at a file are the files with an edge to
it, and a file has an importer exactly if it is listed as referenced. The importer may be the file itself.
-/

set_option autoImplicit false

namespace Orphans

open Ascending (Ascends)

namespace Graph

variable (files : List String)

theorem mem_nodes_build {edges : List Edge} {node : String} :
    node ∈ (build files edges).nodes ↔
      node ∈ files ∨ ∃ edge ∈ edges, node = edge.importer ∨ node = edge.imported := by
  simp [build]

theorem nodup_nodes_build (edges : List Edge) : (build files edges).nodes.Nodup :=
  (Ascending.ascends_ofList _).nodup

theorem edges_build {edges : List Edge} (ascends : Ascends edges) : (build files edges).edges = edges :=
  (Ascending.ascends_ofList edges).ext ascends fun _ => Ascending.mem_ofList

theorem inbound_eq_count (graph : Graph) (node : String) :
    graph.inbound node = (graph.edges.map Edge.imported).count node := by
  rw [inbound, List.count, List.countP_map, List.countP_eq_length_filter]
  rfl

theorem sum_inboundCounts_build (edges : List Edge) :
    ((build files edges).inboundCounts.map Prod.snd).sum = (build files edges).edges.length := by
  let graph := build files edges
  -- The end of an edge is a node even if no file of that name was given, so no edge goes uncounted.
  have arrives : ∀ node ∈ (graph.edges.map Edge.imported : Multiset String), node ∈ graph.nodes.toFinset := by
    intro node member
    obtain ⟨edge, inside, rfl⟩ := List.mem_map.mp (Multiset.mem_coe.mp member)
    rw [List.mem_toFinset, mem_nodes_build]
    exact .inr ⟨edge, Ascending.mem_ofList.mp inside, .inr rfl⟩
  calc (graph.inboundCounts.map Prod.snd).sum
    _ = (graph.nodes.map fun node => (graph.edges.map Edge.imported).count node).sum := by
      rw [inboundCounts, List.map_map]
      congr 2
      funext node
      exact graph.inbound_eq_count node
    _ = ∑ node ∈ graph.nodes.toFinset, (graph.edges.map Edge.imported).count node :=
      (List.sum_toFinset _ (nodup_nodes_build files edges)).symm
    _ = (graph.edges.map Edge.imported).length := by
      simpa only [Multiset.coe_count, Multiset.coe_card] using Multiset.sum_count_eq_card arrives
    _ = graph.edges.length := List.length_map _

end Graph

namespace Analysis

def importers (analysis : Analysis) (file : String) : List String :=
  analysis.files.filter fun importer => ⟨importer, file⟩ ∈ analysis.edges

def ImportedByOther (analysis : Analysis) (file : String) : Prop :=
  ∃ edge ∈ analysis.edges, edge.imported = file ∧ edge.importer ≠ file

instance (analysis : Analysis) (file : String) : Decidable (analysis.ImportedByOther file) :=
  inferInstanceAs (Decidable (∃ edge ∈ analysis.edges, edge.imported = file ∧ edge.importer ≠ file))

namespace Describes

variable {root : String} {files : List Candidate} {reaches : Candidate → String → Prop}
  {exemptNames : List String} {analysis : Analysis}
  (describes : analysis.Describes root files reaches exemptNames)
include describes

theorem ends_mem_files {edge : Edge} (member : edge ∈ analysis.edges) :
    edge.importer ∈ analysis.files ∧ edge.imported ∈ analysis.files := by
  obtain ⟨importer, importing, imported, importable, -, rfl⟩ := (describes.mem_edges edge).mp member
  exact ⟨(describes.mem_files _).mpr ⟨importer, importing, rfl⟩,
    (describes.mem_files _).mpr ⟨imported, importable, rfl⟩⟩

theorem nodes_perm : analysis.graph.nodes.Perm analysis.files := by
  refine (List.perm_ext_iff_of_nodup (Graph.nodup_nodes_build _ _) describes.nodup_files).mpr fun node => ?_
  refine (Graph.mem_nodes_build _).trans ⟨?_, .inl⟩
  rintro (listed | ⟨edge, member, rfl | rfl⟩)
  · exact listed
  · exact (describes.ends_mem_files member).1
  · exact (describes.ends_mem_files member).2

theorem nodup_importers (file : String) : (analysis.importers file).Nodup := describes.nodup_files.filter _

theorem mem_importers {file importer : String} :
    importer ∈ analysis.importers file ↔ ⟨importer, file⟩ ∈ analysis.edges := by
  rw [importers, List.mem_filter, decide_eq_true_iff]
  exact and_iff_right_of_imp fun member => (describes.ends_mem_files member).1

theorem inbound_eq_length_importers (file : String) :
    analysis.graph.inbound file = (analysis.importers file).length := by
  let arriving := analysis.edges.filter fun edge => edge.imported = file
  -- Edges to one file differ in their importers, so the importers are as many as the edges.
  have distinct : (arriving.map Edge.importer).Nodup := by
    refine (describes.edges_ascend.nodup.filter _).map_on ?_
    rintro ⟨first, _⟩ firstArrives ⟨second, _⟩ secondArrives same
    have firstTarget := of_decide_eq_true (List.mem_filter.mp firstArrives).2
    have secondTarget := of_decide_eq_true (List.mem_filter.mp secondArrives).2
    exact congrArg₂ Edge.mk same (firstTarget.trans secondTarget.symm)
  have listed : (arriving.map Edge.importer).Perm (analysis.importers file) := by
    refine (List.perm_ext_iff_of_nodup distinct (describes.nodup_importers file)).mpr fun importer => ?_
    rw [describes.mem_importers, List.mem_map]
    constructor
    · rintro ⟨edge, arrives, rfl⟩
      obtain ⟨member, target⟩ := List.mem_filter.mp arrives
      obtain rfl := of_decide_eq_true target
      exact member
    · intro member
      exact ⟨⟨importer, file⟩, List.mem_filter.mpr ⟨member, decide_eq_true rfl⟩, rfl⟩
  calc analysis.graph.inbound file
    _ = arriving.length := by rw [graph, Graph.inbound, Graph.edges_build _ describes.edges_ascend]
    _ = (analysis.importers file).length := by rw [← listed.length_eq, List.length_map]

theorem inbound_pos_iff {file : String} : 0 < analysis.graph.inbound file ↔ file ∈ analysis.referenced := by
  rw [describes.inbound_eq_length_importers, List.length_pos_iff_exists_mem, describes.mem_referenced]
  constructor
  · rintro ⟨importer, member⟩
    exact ⟨⟨importer, file⟩, describes.mem_importers.mp member, rfl⟩
  · rintro ⟨edge, member, rfl⟩
    exact ⟨edge.importer, describes.mem_importers.mpr member⟩

theorem importedByOther_or_importers_eq {file : String} (referenced : file ∈ analysis.referenced) :
    analysis.ImportedByOther file ∨ analysis.importers file = [file] := by
  by_cases other : analysis.ImportedByOther file
  · exact .inl other
  · refine .inr (List.perm_singleton.mp ?_)
    have only : ∀ importer, importer ∈ analysis.importers file → importer = file := by
      intro importer member
      by_contra different
      exact other ⟨_, describes.mem_importers.mp member, rfl, different⟩
    obtain ⟨edge, member, rfl⟩ := (describes.mem_referenced file).mp referenced
    have importing := describes.mem_importers.mpr member
    refine (List.perm_ext_iff_of_nodup (describes.nodup_importers _) (List.nodup_singleton _)).mpr ?_
    intro importer
    rw [List.mem_singleton]
    constructor
    · exact only importer
    · rintro rfl
      exact only _ importing ▸ importing

/-- All referenced files have another importer exactly if every file that reaches itself is reached from
elsewhere too. -/
theorem importedByOther_iff (rooted : ∀ file ∈ files, Key.IsRooted file.key) :
    (∀ file ∈ analysis.referenced, analysis.ImportedByOther file) ↔
      ∀ file ∈ files, reaches file file.key →
        ∃ other ∈ files, other.key ≠ file.key ∧ reaches other file.key := by
  -- Views from the root tell files apart by their keys.
  have key_eq : ∀ {file other : Candidate}, file ∈ files → other ∈ files →
      Key.relativeTo root file.key = Key.relativeTo root other.key → file.key = other.key :=
    fun inside otherInside => Key.relativeTo_injective root (rooted _ inside) (rooted _ otherInside)
  constructor
  · intro others file inside reached
    have loop : ⟨Key.relativeTo root file.key, Key.relativeTo root file.key⟩ ∈ analysis.edges :=
      (describes.mem_edges _).mpr ⟨file, inside, file, inside, reached, rfl⟩
    obtain ⟨edge, member, target, different⟩ := others _ ((describes.mem_referenced _).mpr ⟨_, loop, rfl⟩)
    obtain ⟨importer, importing, imported, importable, reaches, rfl⟩ := (describes.mem_edges edge).mp member
    rw [key_eq importable inside target] at reaches
    exact ⟨importer, importing, fun same => different (congrArg (Key.relativeTo root) same), reaches⟩
  · intro others key referenced
    obtain ⟨edge, member, rfl⟩ := (describes.mem_referenced key).mp referenced
    by_cases loop : edge.importer = edge.imported
    · -- The edge goes from a file to its own key, so another file has to reach that key as well.
      obtain ⟨importer, importing, imported, importable, reached, rfl⟩ := (describes.mem_edges edge).mp member
      have same := key_eq importing importable loop
      obtain ⟨other, otherInside, different, reachedToo⟩ := others importer importing (same ▸ reached)
      refine ⟨_, (describes.mem_edges _).mpr
        ⟨other, otherInside, imported, importable, same ▸ reachedToo, rfl⟩, rfl, ?_⟩
      exact fun alike => different ((key_eq otherInside importable alike).trans same.symm)
    · exact ⟨edge, member, rfl, loop⟩

end Describes

section Runs
variable {fileSystem : FileSystem} {options : Options} {cancelled : Bool} {analysis : Analysis}

/-- The graph of a result has the listed files as its nodes and counts the importers of each, so that the
counts add up to the edges and are positive at the referenced files. -/
theorem run_graph_agrees (ran : run fileSystem options cancelled = .ok analysis) :
    analysis.files.Nodup ∧ analysis.graph.nodes.Perm analysis.files ∧
    analysis.graph.inboundCounts.map Prod.fst = analysis.graph.nodes ∧
    (∀ entry ∈ analysis.graph.inboundCounts, entry.2 = (analysis.importers entry.1).length ∧
      (0 < entry.2 ↔ entry.1 ∈ analysis.referenced)) ∧
    (∀ file, (analysis.importers file).Nodup ∧
      ∀ importer, importer ∈ analysis.importers file ↔ ⟨importer, file⟩ ∈ analysis.edges) ∧
    (analysis.graph.inboundCounts.map Prod.snd).sum = analysis.edges.length := by
  obtain ⟨-, describes⟩ := describes_of_run ran
  refine ⟨describes.nodup_files, describes.nodes_perm, Graph.map_fst_inboundCounts _, ?_, ?_, ?_⟩
  · intro entry member
    obtain ⟨file, -, rfl⟩ := List.mem_map.mp member
    exact ⟨describes.inbound_eq_length_importers file, describes.inbound_pos_iff⟩
  · exact fun file => ⟨describes.nodup_importers file, fun importer => describes.mem_importers⟩
  · have total := Graph.sum_inboundCounts_build analysis.files analysis.edges
    rwa [Graph.edges_build _ describes.edges_ascend] at total

/-- A referenced file has another importer or is its own only one, and the latter happens exactly if some
file reaches itself and no other file reaches it. -/
theorem run_importedByOther_iff (ran : run fileSystem options cancelled = .ok analysis) :
    (∀ file ∈ analysis.referenced, analysis.ImportedByOther file ∨ analysis.importers file = [file]) ∧
    ((∀ file ∈ analysis.referenced, analysis.ImportedByOther file) ↔
      ∀ file ∈ (discovery fileSystem options analysis.root).files,
        reaches fileSystem options analysis.root file file.key →
          ∃ other ∈ (discovery fileSystem options analysis.root).files, other.key ≠ file.key ∧
            reaches fileSystem options analysis.root other file.key) := by
  obtain ⟨absolute, describes⟩ := describes_of_run ran
  refine ⟨fun file referenced => describes.importedByOther_or_importers_eq referenced,
    describes.importedByOther_iff fun file member => ?_⟩
  exact Key.isRooted_normalize
    (isAbsolute_of_mem_discover (FileSystem.isAbsolute_absolute? absolute) member)

/-- An index file that passes on its own directory, and a file that imports it. -/
def mirroredProject : FileSystem where
  root := .directory [("app", .directory
    [("lib", .directory [("index.ts", .file (some "export * from '.'"))]),
     ("main.ts", .file (some "import './lib'"))])]
  workingDirectory := []

def mirroredAnalysis : Analysis where
  root := "/app"
  totalFiles := 2
  referenced := ["lib/index.ts"]
  unreferenced := ["main.ts"]
  exempt := []
  edges := [⟨"lib/index.ts", "lib/index.ts"⟩, ⟨"main.ts", "lib/index.ts"⟩]
  diagnostics := []

theorem run_mirroredProject : run mirroredProject (.initial "/app" 1) false = .ok mirroredAnalysis := by
  decide +kernel

theorem run_graph_agrees_mirroredProject :
    run mirroredProject (.initial "/app" 1) false = .ok mirroredAnalysis ∧
    mirroredAnalysis.graph.inboundCounts = [("lib/index.ts", 2), ("main.ts", 0)] ∧
    mirroredAnalysis.graph.nodes.Perm mirroredAnalysis.files ∧
    (mirroredAnalysis.graph.inboundCounts.map Prod.snd).sum = 2 := by
  obtain ⟨-, nodes, -, -, -, total⟩ := run_graph_agrees run_mirroredProject
  exact ⟨run_mirroredProject, by decide +kernel, nodes, total⟩

theorem run_importedByOther_mirroredProject :
    run mirroredProject (.initial "/app" 1) false = .ok mirroredAnalysis ∧
    (∀ file ∈ (discovery mirroredProject (.initial "/app" 1) "/app").files,
      reaches mirroredProject (.initial "/app" 1) "/app" file file.key →
        ∃ other ∈ (discovery mirroredProject (.initial "/app" 1) "/app").files, other.key ≠ file.key ∧
          reaches mirroredProject (.initial "/app" 1) "/app" other file.key) := by
  exact ⟨run_mirroredProject, (run_importedByOther_iff run_mirroredProject).2.mp (by decide +kernel)⟩

def echoProject : FileSystem where
  root := .directory [("app", .directory [("a.ts", .file (some "import './a'"))])]
  workingDirectory := []

theorem run_references_echo :
    (Options.initial "/app" 1).validate = .ok () ∧
    ∃ analysis, run echoProject (.initial "/app" 1) false = .ok analysis ∧
      analysis.referenced = ["a.ts"] ∧ ¬ analysis.ImportedByOther "a.ts" := by
  have ran : run echoProject (.initial "/app" 1) false = .ok
      { root := "/app"
        totalFiles := 1
        referenced := ["a.ts"]
        unreferenced := []
        exempt := []
        edges := [⟨"a.ts", "a.ts"⟩]
        diagnostics := [] } := by
    decide +kernel
  exact ⟨by decide, _, ran, rfl, by decide +kernel⟩

end Runs

end Analysis

end Orphans
