import Plexus.Proofs.Graph.Document
import Plexus.Proofs.Labelled.Adjacency

/-!
# Networks there and back

The labelled graph of a network has one edge for every two neurons that a synapse joins, with the
labels of the synapse that counts.  On the way back the synapses are regrouped by their sources,
and those that do not count are gone, but the network compiles to the same graph.
-/

namespace Plexus
namespace LabelledGraph

open Synapse (kept latest supersede starts)

variable {ns : List Neuron} {ss : List Synapse}

/-!
## Drawing a network
-/

/-- The node of a neuron in the graph of some neurons and synapses. -/
def nodeOf (ids : List Value) (ss : List Synapse) (n : Neuron) : LabelledNode :=
  ⟨n.id, neuronLabels n, (kept ids ss n.id).map entry⟩

/-- The graph of some neurons and synapses. -/
def drawn (ns : List Neuron) (ss : List Synapse) : LabelledGraph :=
  ⟨true, false, ns.map (nodeOf (ns.map Neuron.id) ss)⟩

theorem names_drawn (ids : List Value) (ns : List Neuron) (ss : List Synapse) :
    (ns.map (nodeOf ids ss)).map LabelledNode.name = ns.map Neuron.id := by
  rw [List.map_map]
  rfl

theorem putNode_of_new {name : Value} {labels : Labels} {nodes : List LabelledNode}
    (h : ∀ n ∈ nodes, n.name.same name = false) :
    putNode labels name nodes = nodes ++ [⟨name, labels, []⟩] := by
  induction nodes with
  | nil => rfl
  | cons n rest ih =>
      have hn : ¬n.name.same name = true := by rw [h n List.mem_cons_self]; decide
      rw [putNode, if_neg hn, ih fun m hm => h m (List.mem_cons_of_mem n hm), List.cons_append]

/-- A node that is there already stays as it is if it is given no labels. -/
theorem putNode_nil {name : Value} {nodes : List LabelledNode}
    (h : (nodes.any fun n => n.name.same name) = true) :
    putNode [] name nodes = nodes := by
  induction nodes with
  | nil => cases h
  | cons n rest ih =>
      rw [putNode]
      split
      · rfl
      · next hn =>
        rw [List.any_cons, Bool.or_eq_true] at h
        rw [ih (h.resolve_left hn)]

/-- An edge is put into the one node that has the name of its source. -/
theorem putEdge_of_nodup {key : Option Value} {labels : Labels} {source target : Value}
    {nodes : List LabelledNode} (htext : ∀ n ∈ nodes, n.name.IsText)
    (hnodup : (nodes.map LabelledNode.name).Nodup) :
    putEdge key labels source target nodes = nodes.map fun n =>
      if n.name.same source then { n with targets := putTarget key labels target n.targets }
      else n := by
  induction nodes with
  | nil => rfl
  | cons n rest ih =>
      have hn : n.name.IsText := htext n List.mem_cons_self
      have hrest : ∀ m ∈ rest, m.name.IsText := fun m hm => htext m (List.mem_cons_of_mem n hm)
      rw [List.map_cons, List.nodup_cons] at hnodup
      rw [putEdge, List.map_cons]
      split
      · next hsame =>
        have hother : ∀ m ∈ rest, ¬m.name.same source = true := by
          intro m hm hsame'
          apply hnodup.1
          rw [← Value.eq_of_text_same hn hsame, Value.eq_of_text_same (hrest m hm) hsame']
          exact List.mem_map_of_mem hm
        have hkeep : rest.map (fun m => if m.name.same source then
            { m with targets := putTarget key labels target m.targets } else m) = rest :=
          (List.map_congr_left fun m hm => if_neg (hother m hm)).trans (List.map_id' rest)
        rw [hkeep]
      · rw [ih hrest hnodup.2]

theorem checkName_text {name : Value} (h : name.IsText) : checkName name = .ok () := by
  rcases h with ⟨text, rfl⟩
  rfl

theorem addNode_neuron {n : Neuron} {g : LabelledGraph} (hn : n.id.IsText)
    (hnew : ∀ m ∈ g.nodes, m.name.same n.id = false) :
    g.addNode n.id (neuronLabels n) =
      .ok { g with nodes := g.nodes ++ [⟨n.id, neuronLabels n, []⟩] } := by
  have hlabels : checkLabels nodeWords (neuronLabels n) = .ok () := rfl
  rw [addNode, hlabels, checkName_text hn, putNode_of_new hnew]
  rfl

theorem addNode_nil {name : Value} {g : LabelledGraph} (hname : name.IsText)
    (h : (g.nodes.any fun n => n.name.same name) = true) :
    g.addNode name [] = .ok g := by
  have hlabels : checkLabels nodeWords [] = .ok () := rfl
  rw [addNode, hlabels, checkName_text hname, putNode_nil h]
  rfl

/-- Neurons of different names are drawn one after the other. -/
theorem foldlM_addNode {before rest : List Neuron} {ids : List Value}
    (htext : ∀ n ∈ before ++ rest, n.id.IsText)
    (hnodup : ((before ++ rest).map Neuron.id).Nodup) :
    rest.foldlM (fun g n => g.addNode n.id (neuronLabels n))
        (⟨true, false, before.map (nodeOf ids [])⟩ : LabelledGraph) =
      .ok ⟨true, false, (before ++ rest).map (nodeOf ids [])⟩ := by
  induction rest generalizing before with
  | nil => rw [List.append_nil]; rfl
  | cons n rest ih =>
      have hsplit : before ++ n :: rest = (before ++ [n]) ++ rest := by simp
      have hn : n.id.IsText := htext n (by simp)
      have hnew : ∀ m ∈ before.map (nodeOf ids []), m.name.same n.id = false := by
        intro m hm
        rcases List.mem_map.mp hm with ⟨d, hd, rfl⟩
        rw [Bool.eq_false_iff, ne_eq, nodeOf,
          Value.same_iff_eq (htext d (List.mem_append_left _ hd)) hn]
        rw [List.map_append, List.map_cons, List.nodup_append] at hnodup
        exact hnodup.2.2 d.id (List.mem_map_of_mem hd) n.id List.mem_cons_self
      rw [List.foldlM_cons, addNode_neuron hn hnew]
      rw [hsplit] at htext hnodup ⊢
      rw [← ih htext hnodup, List.map_append]
      rfl

theorem has_drawn (htext : ∀ n ∈ ns, n.id.IsText) {name : Value} (hname : name.IsText) :
    (drawn ns ss).has name = true ↔ name ∈ ns.map Neuron.id := by
  have hany : ((drawn ns ss).nodes.any fun n => n.name.same name) =
      (ns.map Neuron.id).any fun id => id.same name := by
    rw [drawn, List.any_map, List.any_map]
    rfl
  rw [has, (Value.idClass_isText.isKey name hname).1, Bool.true_and, hany,
    Synapse.any_same_iff fun _ => text_of_mem_ids htext]

/-- A synapse between neurons is drawn at its source. -/
theorem putEdge_drawn (htext : ∀ n ∈ ns, n.id.IsText) (hnodup : (ns.map Neuron.id).Nodup)
    (hss : ∀ s ∈ ss, s.target.IsText) {s : Synapse} (hs : s.source.IsText)
    (hknown : s.target ∈ ns.map Neuron.id) :
    putEdge (some (.int 0)) (synapseLabels s) s.source s.target (drawn ns ss).nodes =
      (drawn ns (ss ++ [s])).nodes := by
  have hnames : ((drawn ns ss).nodes.map LabelledNode.name).Nodup := by
    rw [drawn, names_drawn]
    exact hnodup
  have hnodes : ∀ n ∈ (drawn ns ss).nodes, n.name.IsText := by
    intro n hn
    rcases List.mem_map.mp hn with ⟨m, hm, rfl⟩
    exact htext m hm
  rw [putEdge_of_nodup hnodes hnames, drawn, drawn, List.map_map]
  apply List.map_congr_left
  intro n hn
  rw [Function.comp_apply, nodeOf, nodeOf, Synapse.kept_concat]
  have hiff : n.id.same s.source = true ↔ starts (ns.map Neuron.id) n.id s = true := by
    rw [Synapse.starts_iff (fun _ => text_of_mem_ids htext) (htext n hn),
      Value.same_iff_eq (htext n hn) hs, eq_comm]
    exact ⟨fun h => ⟨h, hknown⟩, And.left⟩
  split
  · next hsame =>
    rw [if_pos (hiff.mp hsame), putTarget_map_entry]
    intro d hd
    exact hss d (List.mem_filter.mp (Synapse.mem_of_mem_latest hd)).1
  · next hsame => rw [if_neg fun h => hsame (hiff.mpr h)]

/-- Adding a synapse to the graph of those before it gives the graph of all of them. -/
theorem addSynapse_drawn (htext : ∀ n ∈ ns, n.id.IsText) (hnodup : (ns.map Neuron.id).Nodup)
    (hss : ∀ s ∈ ss, s.target.IsText) {s : Synapse} (hs : s.source.IsText ∧ s.target.IsText) :
    addSynapse (drawn ns ss) s = .ok (drawn ns (ss ++ [s])) := by
  have hlabels : checkLabels (edgeWords (drawn ns ss).parallel) (synapseLabels s) = .ok () := rfl
  rw [addSynapse]
  split
  · next hends =>
    rw [Bool.and_eq_true] at hends
    have hsource := Bool.and_eq_true_iff.mp hends.1
    have htarget := Bool.and_eq_true_iff.mp hends.2
    have hknown : s.target ∈ ns.map Neuron.id := (has_drawn htext hs.2).mp hends.2
    rw [addEdge, hlabels, addNode_nil hs.1 hsource.2]
    show ((drawn ns ss).addNode s.target [] >>= fun g =>
      takeKey g.parallel (synapseLabels s) >>= fun p =>
        pure { g with nodes := putEdge p.1 p.2 s.source s.target g.nodes }) = _
    rw [addNode_nil hs.2 htarget.2]
    show Except.ok { drawn ns ss with
      nodes := putEdge (some (.int 0)) (synapseLabels s) s.source s.target (drawn ns ss).nodes } = _
    rw [putEdge_drawn htext hnodup hss hs.1 hknown]
    rfl
  · next hends =>
    rw [Bool.and_eq_true, has_drawn htext hs.1, has_drawn htext hs.2] at hends
    rw [drawn, drawn]
    congr 2
    apply List.map_congr_left
    intro n hn
    rw [nodeOf, nodeOf, Synapse.kept_concat, if_neg]
    rw [Synapse.starts_iff (fun _ => text_of_mem_ids htext) (htext n hn)]
    rintro ⟨hsource, htarget⟩
    exact hends ⟨hsource ▸ List.mem_map_of_mem hn, htarget⟩

theorem foldlM_addSynapse (htext : ∀ n ∈ ns, n.id.IsText) (hnodup : (ns.map Neuron.id).Nodup)
    (hss : ∀ s ∈ ss, s.source.IsText ∧ s.target.IsText) :
    ss.foldlM addSynapse (drawn ns []) = .ok (drawn ns ss) := by
  induction ss using List.reverseRecOn with
  | nil => rfl
  | append_singleton front s ih =>
      have hfront : ∀ s ∈ front, s.source.IsText ∧ s.target.IsText :=
        fun s hs => hss s (List.mem_append_left _ hs)
      rw [List.foldlM_append, ih hfront]
      show addSynapse (drawn ns front) s >>= pure = _
      rw [addSynapse_drawn htext hnodup (fun d hd => (hfront d hd).2)
        (hss s (List.mem_append_right front List.mem_cons_self))]
      rfl

theorem ofNetwork_eq_drawn (htext : ∀ n ∈ ns, n.id.IsText) (hnodup : (ns.map Neuron.id).Nodup)
    (hss : ∀ s ∈ ss, s.source.IsText ∧ s.target.IsText) :
    ofNetwork ns ss = .ok (drawn ns ss) := by
  have hnodes : ns.foldlM (fun g n => g.addNode n.id (neuronLabels n)) (empty true false) =
      Except.ok (drawn ns []) := by
    have htext' : ∀ n ∈ [] ++ ns, n.id.IsText := htext
    exact foldlM_addNode htext' hnodup
  rw [ofNetwork, hnodes]
  exact foldlM_addSynapse htext hnodup hss

/-!
## The edges of the graph
-/

/-- The synapses that count, grouped by their sources. -/
def joined (ns : List Neuron) (ss : List Synapse) : List Synapse :=
  ns.flatMap fun n => kept (ns.map Neuron.id) ss n.id

/-- The edge of a synapse. -/
def edgeOf (s : Synapse) : LabelledEdge := ⟨s.source, s.target, synapseLabels s⟩

theorem ends_of_lastJoining (hss : ∀ s ∈ ss, s.source.IsText ∧ s.target.IsText) {u v : Value}
    {s : Synapse} (hu : u.IsText) (hv : v.IsText)
    (h : Synapse.lastJoining ss u v = some s) : s.source = u ∧ s.target = v := by
  rcases Synapse.mem_of_lastJoining h with ⟨hs, hjoins⟩
  exact (Synapse.joins_iff (hss s hs).1 (hss s hs).2 hu hv).mp hjoins

theorem mem_joined_iff (htext : ∀ n ∈ ns, n.id.IsText) (hss : ∀ s ∈ ss, s.target.IsText)
    {s : Synapse} :
    s ∈ joined ns ss ↔ s.source ∈ ns.map Neuron.id ∧ s.target ∈ ns.map Neuron.id ∧
      Synapse.lastJoining ss s.source s.target = some s := by
  have hkept {u : Value} (hu : u.IsText) :=
    Synapse.mem_kept_iff (d := s) (fun _ => text_of_mem_ids htext) hss hu
  rw [joined, List.mem_flatMap]
  constructor
  · rintro ⟨n, hn, hs⟩
    rcases (hkept (htext n hn)).mp hs with ⟨hsource, htarget, hlast⟩
    rw [hsource]
    exact ⟨List.mem_map_of_mem hn, htarget, hlast⟩
  · rintro ⟨hsource, htarget, hlast⟩
    rcases List.mem_map.mp hsource with ⟨n, hn, hid⟩
    refine ⟨n, hn, (hkept (htext n hn)).mpr ?_⟩
    rw [hid]
    exact ⟨rfl, htarget, hlast⟩

/-- No two of the synapses that count join the same two neurons. -/
theorem pairwise_joined (htext : ∀ n ∈ ns, n.id.IsText) (hnodup : (ns.map Neuron.id).Nodup)
    (hss : ∀ s ∈ ss, s.target.IsText) :
    (joined ns ss).Pairwise fun s d => ¬(s.source = d.source ∧ s.target = d.target) := by
  have hsource : ∀ n ∈ ns, ∀ s ∈ kept (ns.map Neuron.id) ss n.id, s.source = n.id :=
    fun n hn s hs =>
      ((Synapse.starts_iff (fun _ => text_of_mem_ids htext) (htext n hn)).mp
        (Synapse.starts_of_mem_kept hs)).1
  rw [joined, List.pairwise_flatMap]
  constructor
  · intro n _
    exact (List.pairwise_map.mp (Synapse.nodup_kept hss n.id)).imp fun hne h => hne h.2
  · apply (List.pairwise_map.mp hnodup).imp_of_mem
    intro n m hn hm hne s hs d hd h
    rw [hsource n hn s hs, hsource m hm d hd] at h
    exact hne h.1

theorem edges_drawn (htext : ∀ n ∈ ns, n.id.IsText) :
    (drawn ns ss).edges = (joined ns ss).map edgeOf := by
  rw [edges, drawn, joined, List.flatMap_map, List.map_flatMap]
  apply List.flatMap_congr
  intro n hn
  rw [edgesOf, nodeOf, List.flatMap_map, List.map_eq_flatMap (f := edgeOf)]
  apply List.flatMap_congr
  intro s hs
  have hsource : s.source = n.id :=
    ((Synapse.starts_iff (fun _ => text_of_mem_ids htext) (htext n hn)).mp
      (Synapse.starts_of_mem_kept hs)).1
  rw [edgeOf, hsource]
  rfl

/-- There is an edge exactly where a synapse counts, with the labels of that synapse. -/
theorem mem_edges_drawn_iff (htext : ∀ n ∈ ns, n.id.IsText)
    (hss : ∀ s ∈ ss, s.source.IsText ∧ s.target.IsText) {e : LabelledEdge} :
    e ∈ (drawn ns ss).edges ↔ e.source ∈ ns.map Neuron.id ∧ e.target ∈ ns.map Neuron.id ∧
      ∃ s, Synapse.lastJoining ss e.source e.target = some s ∧ e.labels = synapseLabels s := by
  have hjoined {s : Synapse} := mem_joined_iff (s := s) htext fun s hs => (hss s hs).2
  rw [edges_drawn htext, List.mem_map]
  constructor
  · rintro ⟨s, hs, rfl⟩
    rcases hjoined.mp hs with ⟨hsource, htarget, hlast⟩
    exact ⟨hsource, htarget, s, hlast, rfl⟩
  · rintro ⟨hsource, htarget, s, hlast, hlabels⟩
    have hends := ends_of_lastJoining hss (text_of_mem_ids htext hsource)
      (text_of_mem_ids htext htarget) hlast
    rcases e with ⟨source, target, labels⟩
    dsimp only at hsource htarget hlast hlabels hends
    rw [← hends.1] at hsource hlast
    rw [← hends.2] at htarget hlast
    refine ⟨s, hjoined.mpr ⟨hsource, htarget, hlast⟩, ?_⟩
    rw [edgeOf, hends.1, hends.2, hlabels]

/-!
## The way back
-/

theorem toNeuron_nodeOf {n : Neuron} {f : Activation} (hn : n.id.IsText)
    (hknown : Activation.ofValue n.activation = .ok f) (kind activation : Value)
    (ids : List Value) :
    toNeuron kind activation (nodeOf ids ss n) = .ok n := by
  rcases hn with ⟨text, htext⟩
  have hmake : toNeuron kind activation (nodeOf ids ss n) =
      Neuron.make (.text n.id.display) (.text n.kind.tag) (.real n.bias) n.activation := rfl
  rw [hmake, htext, Value.display_text, ← htext, Neuron.make_eq_ok hknown]

theorem toSynapse_edgeOf {s : Synapse} (hs : s.id.IsText ∧ s.source.IsText ∧ s.target.IsText)
    (i : Nat) : toSynapse (edgeOf s, i) = .ok s := by
  rcases s with ⟨id, source, target, weight⟩
  rcases hs with ⟨⟨text, rfl⟩, ⟨from', rfl⟩, ⟨to', rfl⟩⟩
  rfl

theorem toNetwork_drawn (htext : ∀ n ∈ ns, n.id.IsText)
    (hknown : ∀ n ∈ ns, ∃ f, Activation.ofValue n.activation = .ok f)
    (hss : ∀ s ∈ ss, s.id.IsText ∧ s.source.IsText ∧ s.target.IsText)
    (kind activation : Value) :
    toNetwork kind activation (drawn ns ss) = .ok (ns, joined ns ss) := by
  have hneurons : (drawn ns ss).nodes.mapM (toNeuron kind activation) = .ok ns := by
    rw [drawn, List.mapM_map, Attempt.mapM_eq_ok (g := id), List.map_id]
    intro n hn
    rcases hknown n hn with ⟨f, hf⟩
    exact toNeuron_nodeOf (htext n hn) hf kind activation _
  have hsynapses : (drawn ns ss).edges.zipIdx.mapM toSynapse = .ok (joined ns ss) := by
    rw [edges_drawn htext, List.zipIdx_map, List.mapM_map, Attempt.mapM_eq_ok (g := Prod.fst),
      List.zipIdx_map_fst]
    rintro ⟨s, i⟩ hs
    have hmem : s ∈ joined ns ss := List.fst_mem_of_mem_zipIdx hs
    rcases (mem_joined_iff htext fun s hs => (hss s hs).2.2).mp hmem with ⟨-, -, hlast⟩
    exact toSynapse_edgeOf (hss s (Synapse.mem_of_lastJoining hlast).1) i
  rw [toNetwork]
  show (do
    let neurons ← (drawn ns ss).nodes.mapM (toNeuron kind activation)
    let synapses ← (drawn ns ss).edges.zipIdx.mapM toSynapse
    return (neurons, synapses)) = _
  rw [hneurons, hsynapses]
  rfl

/-- What comes back compiles as what was drawn: the same synapses count. -/
theorem flatten_joined {α : Type} [Scalar α] (htext : ∀ n ∈ ns, n.id.IsText)
    (hnodup : (ns.map Neuron.id).Nodup) (hss : ∀ s ∈ ss, s.source.IsText ∧ s.target.IsText) :
    (Compiled.flatten ns (joined ns ss) : Compiled α) = Compiled.flatten ns ss := by
  have hids : ∀ u ∈ ns.map Neuron.id, u.IsText := fun _ => text_of_mem_ids htext
  have hsingle : Compiled.Single (ns.map Neuron.id) (joined ns ss) := by
    apply (pairwise_joined htext hnodup fun s hs => (hss s hs).2).imp
    intro s d hne h
    exact hne ⟨h.2.2.1.symm, h.2.2.2.symm⟩
  apply Compiled.flatten_congr htext
  intro i j hi hj
  have hu : (ns.map Neuron.id)[i]? = some ns[i].id := by
    rw [List.getElem?_map, List.getElem?_eq_getElem hi, Option.map_some]
  have hv : (ns.map Neuron.id)[j]? = some ns[j].id := by
    rw [List.getElem?_map, List.getElem?_eq_getElem hj, Option.map_some]
  rw [Compiled.lastLeading_eq_lastJoining (apart_of_nodup hids hnodup) hids hss hu hv]
  apply Option.ext
  intro s
  rw [Compiled.lastLeading_eq_some_iff hids hnodup hsingle hu hv,
    mem_joined_iff htext fun s hs => (hss s hs).2]
  constructor
  · rintro ⟨⟨-, -, hlast⟩, hsource, htarget⟩
    rw [hsource, htarget] at hlast
    exact hlast
  · intro hlast
    have hends := ends_of_lastJoining hss (hids _ (List.mem_of_getElem? hu))
      (hids _ (List.mem_of_getElem? hv)) hlast
    rw [hends.1, hends.2]
    exact ⟨⟨List.mem_of_getElem? hu, List.mem_of_getElem? hv, hlast⟩, rfl, rfl⟩

/--
The labelled graph of a network has one edge for every two neurons that a synapse joins, with the
labels of the last one that does.  The network that it is turned back into compiles to the graph
that the first one compiles to.
-/
theorem compile_toNetwork_ofNetwork {α : Type} [Scalar α] (htext : ∀ n ∈ ns, n.id.IsText)
    (hnodup : (ns.map Neuron.id).Nodup)
    (hknown : ∀ n ∈ ns, ∃ f, Activation.ofValue n.activation = .ok f)
    (hss : ∀ s ∈ ss, s.id.IsText ∧ s.source.IsText ∧ s.target.IsText)
    (kind activation : Value) :
    ∃ g ns' ss', ∃ c : Compiled α, ofNetwork ns ss = .ok g ∧
      (g.edges.Pairwise fun e f => ¬(e.source = f.source ∧ e.target = f.target)) ∧
      (∀ e, e ∈ g.edges ↔ e.source ∈ ns.map Neuron.id ∧ e.target ∈ ns.map Neuron.id ∧
        ∃ s, Synapse.lastJoining ss e.source e.target = some s ∧ e.labels = synapseLabels s) ∧
      toNetwork kind activation g = .ok (ns', ss') ∧
      Compiled.compile ns' ss' = .ok c ∧ Compiled.compile ns ss = .ok c := by
  have hends : ∀ s ∈ ss, s.source.IsText ∧ s.target.IsText := fun s hs => (hss s hs).2
  have hscalar : ∀ s ∈ ss, s.source.isScalar = true ∧ s.target.isScalar = true := fun s hs =>
    ⟨(Value.idClass_isText.isKey _ (hends s hs).1).1,
      (Value.idClass_isText.isKey _ (hends s hs).2).1⟩
  refine ⟨drawn ns ss, ns, joined ns ss, Compiled.flatten ns ss,
    ofNetwork_eq_drawn htext hnodup hends, ?_, fun e => mem_edges_drawn_iff htext hends,
    toNetwork_drawn htext hknown hss kind activation, ?_, Compiled.compile_eq_ok htext hscalar⟩
  · rw [edges_drawn htext]
    exact List.pairwise_map.mpr (pairwise_joined htext hnodup fun s hs => (hends s hs).2)
  · rw [Compiled.compile_eq_ok htext, flatten_joined htext hnodup hends]
    intro s hs
    rcases (mem_joined_iff htext fun s hs => (hends s hs).2).mp hs with ⟨-, -, hlast⟩
    exact hscalar s (Synapse.mem_of_lastJoining hlast).1

/-- Two neurons. -/
def couple : List Neuron :=
  [{ id := .text "a", kind := .input, bias := 0.5, activation := .text "relu" },
   { id := .text "b", kind := .output, bias := 0.0, activation := .text "linear" }]

/-- Two parallel synapses, one from a neuron to itself, and one to no neuron. -/
def coupleSynapses : List Synapse :=
  [{ id := .text "back", source := .text "b", target := .text "a", weight := 1.0 },
   { id := .text "first", source := .text "a", target := .text "b", weight := 2.0 },
   { id := .text "lost", source := .text "a", target := .text "x", weight := 3.0 },
   { id := .text "loop", source := .text "a", target := .text "a", weight := 4.0 },
   { id := .text "second", source := .text "a", target := .text "b", weight := 5.0 }]

theorem compile_toNetwork_ofNetwork_couple :
    ∃ g ns' ss', ∃ c : Compiled Float32, ofNetwork couple coupleSynapses = .ok g ∧
      (g.edges.Pairwise fun e f => ¬(e.source = f.source ∧ e.target = f.target)) ∧
      (∀ e, e ∈ g.edges ↔
        e.source ∈ couple.map Neuron.id ∧ e.target ∈ couple.map Neuron.id ∧
        ∃ s, Synapse.lastJoining coupleSynapses e.source e.target = some s ∧
          e.labels = synapseLabels s) ∧
      toNetwork (.text "hidden") (.text "tanh") g = .ok (ns', ss') ∧
      Compiled.compile ns' ss' = .ok c ∧ Compiled.compile couple coupleSynapses = .ok c := by
  apply compile_toNetwork_ofNetwork
  · intro n hn
    rcases List.mem_pair.mp hn with rfl | rfl
    · exact ⟨"a", rfl⟩
    · exact ⟨"b", rfl⟩
  · simp [couple]
  · intro n hn
    rcases List.mem_pair.mp hn with rfl | rfl
    · exact ⟨.relu, rfl⟩
    · exact ⟨.linear, rfl⟩
  · intro s hs
    simp only [coupleSynapses, List.mem_cons, List.not_mem_nil, or_false] at hs
    rcases hs with rfl | rfl | rfl | rfl | rfl
    all_goals exact ⟨⟨_, rfl⟩, ⟨_, rfl⟩, ⟨_, rfl⟩⟩

end LabelledGraph
end Plexus
