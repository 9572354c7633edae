import Plexus.Proofs.Compiled.Matching
import Plexus.Proofs.Engine.Deletion
import Plexus.Proofs.Engine.Import
import Plexus.Proofs.Engine.Order
import Plexus.Proofs.Engine.Quiet

/-!
# What the cache and the compiled graph of an engine account for

The cache of an engine changes when the graph is changed and when trained parameters are written
back, the compiled graph only when the engine compiles.  A change of the graph always compiles it
again, or gives the compiled graph up.  Writing parameters back does not: from then on the cache
accounts for what the backend runs, and the compiled graph for what it ran before.
-/

namespace Plexus
namespace Engine

open Attempt
open Compiled (Outlines Tells Matches)
open Scalar (Like Lossless)
open Value (IdClass IsText)

variable {α β : Type} [Scalar α] {P : Value → Prop}

/-!
## What is said of a compiled graph
-/

/-- A compiled graph that fits the cache but for parameters, with tags that are known. -/
structure Reflects (c : Compiled α) (e : Engine α) : Prop where
  outline : Outlines e.neurons e.synapses c
  known : ∀ n ∈ e.neurons, ∃ f, Activation.ofValue n.activation = .ok f

/-- The cache holds the parameters of the compiled graph, or those that the backend runs. -/
def Told (c : Compiled α) (e : Engine α) : Prop :=
  c = Compiled.flatten e.neurons e.synapses ∨
    ∃ weights biases, e.readParameters? = some (weights, biases) ∧
      Tells e.synapses weights biases (Compiled.flatten e.neurons e.synapses)

/-- An empty graph that was compiled before the stores, which hold neurons, were first read. -/
structure Outrun (c : Compiled α) (e : Engine α) : Prop where
  size : c.size = 0
  index : c.index = []
  neurons : e.neurons ≠ []

/-- An engine has compiled a graph only on a backend that has its device. -/
def Hosted (e : Engine α) : Prop := e.compiled.isSome = true → e.hasReadyBackend = true

/-- What holds of an engine on keyed stores and any backend, whatever is done with it. -/
structure Accounted (P : Value → Prop) (e : Engine α) : Prop where
  stored : e.Stored P
  cached : e.Stocked P e.neurons e.synapses ∨ e.neurons = [] ∧ e.synapses = []
  hosted : e.Hosted
  accounts : ∀ c, e.compiled = some c →
    e.Reflects c ∧ (e.trained = false → e.Told c) ∨ e.Outrun c

omit [Scalar α] in
theorem Undisturbed.stored {e e' : Engine α} (h : e.Undisturbed e') (hs : e.Stored P) :
    e'.Stored P := by
  rcases hs with ⟨ns, ss, hs⟩
  exact ⟨ns, ss, h.stocked hs⟩

omit [Scalar α] in
theorem Undisturbed.cached {e e' : Engine α} (h : e.Undisturbed e')
    (hs : e.Stocked P e.neurons e.synapses ∨ e.neurons = [] ∧ e.synapses = []) :
    e'.Stocked P e'.neurons e'.synapses ∨ e'.neurons = [] ∧ e'.synapses = [] := by
  rw [h.neurons, h.synapses]
  rcases hs with hs | hs
  · exact Or.inl (h.stocked hs)
  · exact Or.inr hs

theorem Accounted.follows {e : Engine α} (h : e.Accounted P) : e.Follows P false := by
  rcases h.cached with hcached | hnone
  · exact ⟨_, _, hcached, Or.inl (.refl _ _)⟩
  · rcases h.stored with ⟨ns, ss, hs⟩
    exact ⟨ns, ss, hs, Or.inr ⟨rfl, hnone⟩⟩

/-- Nothing is said of the compiled graph if there is none. -/
theorem accounted_of_not_compiled {e : Engine α} (hstored : e.Stored P)
    (hcached : e.Stocked P e.neurons e.synapses ∨ e.neurons = [] ∧ e.synapses = [])
    (hc : e.compiled = none) : e.Accounted P := by
  refine ⟨hstored, hcached, fun hsome => ?_, fun c hsome => ?_⟩
  · rw [hc] at hsome
    cases hsome
  · rw [hc] at hsome
    cases hsome

theorem Accounted.of_unaltered {e e' : Engine α} (h : e.Accounted P) (hsame : e.Unaltered e')
    (htold : e'.trained = false → e.trained = false ∧ e'.readParameters? = e.readParameters?) :
    e'.Accounted P := by
  refine ⟨hsame.stored h.stored, hsame.cached h.cached, fun hsome => ?_, fun c hc => ?_⟩
  · rw [hsame.compiled] at hsome
    exact hsame.ready (h.hosted hsome)
  · rw [hsame.compiled] at hc
    rcases h.accounts c hc with ⟨hreflects, htells⟩ | houtrun
    · refine Or.inl ⟨⟨?_, ?_⟩, fun huntrained => ?_⟩
      · rw [hsame.neurons, hsame.synapses]
        exact hreflects.outline
      · rw [hsame.neurons]
        exact hreflects.known
      · rcases htold huntrained with ⟨hbefore, hanswer⟩
        rw [Told, hsame.neurons, hsame.synapses, hanswer]
        exact htells hbefore
    · exact Or.inr ⟨houtrun.size, houtrun.index, by rw [hsame.neurons]; exact houtrun.neurons⟩

theorem Accounted.of_quiet {e e' : Engine α} (h : e.Accounted P) (hquiet : e.Quiet e') :
    e'.Accounted P :=
  h.of_unaltered hquiet.toUnaltered fun huntrained =>
    ⟨hquiet.trained ▸ huntrained, hquiet.answer⟩

/-!
## Compiling
-/

omit [Scalar α] in
theorem editing_ready : Editing (Kept fun e : Engine α => e.hasReadyBackend = true) where
  graph _ _ _ _ _ _ _ h := h

omit [Scalar α] in
theorem ready_onBackend {step : Attempt (Backend α) β} (h : Respects Backend.Stands step) :
    Respects (Kept fun e => e.hasReadyBackend = true) (onBackend step) :=
  respects_onBackend fun _ b hb => (unaltered_of_backend hb (h b)).ready

theorem compiling_ready : Compiling (Kept fun e : Engine α => e.hasReadyBackend = true) where
  load c := by
    intro e he
    rcases hasReadyBackend_iff.mp he with ⟨b, hb, hready⟩
    rcases load_or_abandon c e with ⟨b₀, b', hb₀, hstands, -, hrun⟩ | ⟨f, backend, hrel, hrun⟩
    · rw [after_of_outcome hrun]
      exact (unaltered_of_backend hb₀ hstands).ready he
    · rw [after_of_outcome hrun, hasReadyBackend_iff]
      rw [hb] at hrel
      cases hrel with
      | some hstands => exact ⟨_, rfl, Backend.ready_release (hstands.ready hready)⟩
  compiled _ _ h := h
  installed _ _ h := h
  renewTargets cells := by
    refine respects_get_bind fun e => ?_
    split
    · rw [after, outcome_set_bind]
      exact ready_onBackend (Backend.stands_prepareTraining _ _)
        { e with targets := some (blankTargets cells) }
    · exact refl e

/-- A backend takes a graph only if it knows all its tags. -/
theorem codes_of_load {c : Compiled α} {e e' : Engine α} (h : (load c).outcome e = (.ok (), e')) :
    ∃ codes, c.activations.mapM Activation.ofValue = .ok codes := by
  rw [load, outcome_get_bind] at h
  rcases outcome_onBackend_eq_ok h with ⟨b, b', -, hprepare, -⟩
  rcases outcome_bind_eq_ok hprepare with ⟨_, _, -, hprepare⟩
  rw [outcome_get_bind] at hprepare
  rcases outcome_bind_eq_ok hprepare with ⟨n, _, hcheck, -⟩
  rcases Backend.checkNetwork_eq_ok (outcome_of_eq_ok hcheck).1 with ⟨codes, hcodes, -⟩
  exact ⟨codes, hcodes⟩

theorem known_of_compile {e : Engine α} (hready : e.hasReadyBackend = true)
    (hname : Compiled.nameable e.neurons e.synapses = true)
    (hsome : (compile.after e).compiled.isSome = true) :
    ∀ n ∈ e.neurons, ∃ f, Activation.ofValue n.activation = .ok f := by
  rw [after, outcome_compile_of_nameable hready hname] at hsome
  rcases load_or_abandon (Compiled.flatten e.neurons e.synapses) e with
    ⟨b, b', -, -, -, hrun⟩ | ⟨f, backend, -, hrun⟩
  · rcases codes_of_load (outcome_onFault_eq_ok hrun) with ⟨codes, hcodes⟩
    intro n hn
    rcases List.mem_iff_getElem?.mp hn with ⟨i, hi⟩
    have htag : (e.neurons.map Neuron.activation)[i]? = some n.activation := by
      rw [List.getElem?_map, hi, Option.map_some]
    rcases mapM_getElem? hcodes htag with ⟨f, hf, -⟩
    exact ⟨f, hf⟩
  · rw [outcome_bind_of_error hrun] at hsome
    cases hsome

/-- Whatever a compilation comes to, it leaves no compiled graph that is out of date. -/
theorem accounted_compile {e : Engine α} (hP : IdClass P) (hstored : e.Stored P)
    (hcached : e.Stocked P e.neurons e.synapses ∨ e.neurons = [] ∧ e.synapses = [])
    (hready : e.hasReadyBackend = true) : (compile.after e).Accounted P := by
  have hsame := compiling_undisturbed.compile e
  have hname : Compiled.nameable e.neurons e.synapses = true := by
    rcases hcached with hs | ⟨hneurons, hsynapses⟩
    · exact hs.nameable hP
    · rw [hneurons, hsynapses]
      rfl
  refine ⟨hsame.stored hstored, hsame.cached hcached,
    fun _ => compiling_ready.compile e hready, fun c hc => ?_⟩
  rcases compiled_of_compile hready hname with hsome | ⟨-, hnone⟩
  · rw [hc, Option.some.injEq] at hsome
    have hknown := known_of_compile hready hname (by rw [hc]; rfl)
    refine Or.inl ⟨⟨?_, ?_⟩, fun _ => Or.inl ?_⟩
    · rw [hsome, hsame.neurons, hsame.synapses]
      exact Compiled.outlines_flatten _ _
    · rw [hsame.neurons]
      exact hknown
    · rw [hsome, hsame.neurons, hsame.synapses]
  · rw [hc] at hnone
    cases hnone

theorem accounted_refreshAndCompile {e : Engine α} (hP : IdClass P) (hstored : e.Stored P)
    (hhosted : e.Hosted) :
    (refreshAndCompile.after e).Accounted P := by
  rcases hstored with ⟨ns, ss, hs⟩
  have hs' : (e.withCache ns ss).Stocked P ns ss := hs.of_stores rfl rfl
  rw [refreshAndCompile, after, outcome_bind_of_ok (outcome_refresh hs), outcome_get_bind]
  cases hbackend : (e.withCache ns ss).hasReadyBackend with
  | true =>
      have hcompile := accounted_compile hP ⟨ns, ss, hs'⟩ (Or.inl hs') hbackend
      rw [if_pos rfl]
      exact bind_induction (I := Accounted P) hcompile fun _ t ht =>
        (respects_projection (R := Eq) t) ▸ ht
  | false =>
      rw [if_neg Bool.false_ne_true]
      -- Nothing is compiled without a device, so the new cache outdates no graph.
      have hnone : (e.withCache ns ss).compiled = none := by
        rw [← Option.not_isSome_iff_eq_none]
        intro hsome
        have hready' : (e.withCache ns ss).hasReadyBackend = true := hhosted hsome
        rw [hbackend] at hready'
        cases hready'
      exact (respects_projection (R := Eq) (e.withCache ns ss)) ▸
        accounted_of_not_compiled ⟨ns, ss, hs'⟩ (Or.inl hs') hnone

/-!
## Writing back
-/

section Written

variable [Lossless α] {c : Compiled α} {ns : List Neuron} {ss : List Synapse}

omit [Lossless α] in
theorem linked_reweighted (index : IndexTable) (size : Nat) (c : Compiled α) (weights : Array α)
    (ss : List Synapse) :
    Compiled.linked index size (ss.map (reweighted c weights)) =
      Compiled.linked index size ss := by
  have hcell :
      Compiled.cellOf? index size ∘ reweighted c weights = Compiled.cellOf? index size := by
    funext s
    simp only [Function.comp_apply, Compiled.cellOf?, reweighted_source, reweighted_target]
  rw [Compiled.linked, List.filterMap_map, hcell, Compiled.linked]

omit [Lossless α] in
theorem outlines_synced (h : Outlines ns ss c) (weights biases : Array α) :
    Outlines (ns.map (rebiased c biases)) (ss.map (reweighted c weights)) c := by
  refine h.of_parts ?_ ?_ (linked_reweighted _ _ _ _ _)
  · simp [Function.comp_def]
  · simp [Function.comp_def]

/-- Once the parameters of a network have been written back, the graph tells them. -/
theorem tells_synced (hP : IdClass P) (hdistinct : Distinct P ns) (h : Outlines ns ss c)
    (weights biases : Array α) :
    Tells (ss.map (reweighted c weights)) weights biases
      (Compiled.flatten (ns.map (rebiased c biases)) (ss.map (reweighted c weights))) := by
  have hsynced := outlines_synced h weights biases
  have hflat := Compiled.outlines_flatten (α := α) (ns.map (rebiased c biases))
    (ss.map (reweighted c weights))
  constructor
  · intro i hi
    rw [hflat.size, List.length_map] at hi
    have hn : ns[i]? = some ns[i] := List.getElem?_eq_getElem hi
    rw [Compiled.cell_biases_flatten (n := rebiased c biases ns[i])]
    · exact like_rebiased (h.find?_id hP hdistinct hn)
    · rw [List.getElem?_map, hn, Option.map_some]
  · intro k hk hlt
    rcases Compiled.exists_cell_weights_flatten (α := α) hk hlt with ⟨s, hs, hcell, hweight⟩
    rcases List.mem_map.mp hs with ⟨d, -, rfl⟩
    rw [hweight]
    apply like_reweighted
    rw [← hcell, ← hsynced.ids, ← hsynced.index, ← hsynced.size]
    simp only [Compiled.cellOf?, reweighted_source, reweighted_target]

end Written

/-- Nothing is written back unless parameters can be read. -/
theorem syncWeights_refused_or_reads (e : Engine α) :
    (∃ f, syncWeights.outcome e = (.error f, e)) ∨
      ∃ c weights biases b, e.compiled = some c ∧ e.backend = some b ∧
        (onBackend Backend.readParameters).outcome e = (.ok (weights, biases), e) := by
  cases hc : e.compiled with
  | none =>
      apply Or.inl
      refine ⟨.nothingCompiled, ?_⟩
      rw [syncWeights, outcome_get_bind, hc]
      rfl
  | some c =>
      cases hb : e.backend with
      | none =>
          apply Or.inl
          refine ⟨.nothingCompiled, ?_⟩
          simp only [syncWeights, outcome_get_bind, hc, hb, Option.isNone_none, if_true]
          rfl
      | some b =>
          rcases b.outcome_readParameters with ⟨r, hrun, -⟩
          have hread := outcome_onBackend hb (Backend.readParameters (α := α))
          rw [hrun, ← hb] at hread
          cases r with
          | error f =>
              apply Or.inl
              refine ⟨f, ?_⟩
              simp only [syncWeights, outcome_get_bind, hc, hb, Option.isNone_some,
                Bool.false_eq_true, if_false]
              exact outcome_bind_of_error hread _
          | ok parameters => exact Or.inr ⟨c, parameters.1, parameters.2, b, rfl, rfl, hread⟩

/-- A graph without an index for the first neuron cannot be written back. -/
theorem outcome_syncWeights_of_outrun {c : Compiled α} {weights biases : Array α} {b : Backend α}
    {e : Engine α} (hc : e.compiled = some c) (hb : e.backend = some b) (h : e.Outrun c)
    (hread : (onBackend Backend.readParameters).outcome e = (.ok (weights, biases), e)) :
    ∃ f, syncWeights.outcome e = (.error f, e) := by
  rcases List.exists_cons_of_ne_nil h.neurons with ⟨n, rest, hneurons⟩
  have hnone : c.index.find? n.id = none := by
    rw [h.index]
    rfl
  have hindex : ∃ f, c.indexOf n.id = .error f := by
    rw [Compiled.indexOf, hnone]
    split
    · exact ⟨_, rfl⟩
    · exact ⟨_, rfl⟩
  rcases hindex with ⟨f, hindex⟩
  refine ⟨f, ?_⟩
  simp only [syncWeights, outcome_get_bind, hc, hb, Option.isNone_some, Bool.false_eq_true,
    if_false]
  rw [outcome_bind_of_ok hread, hneurons]
  apply outcome_bind_of_error
  rw [outcome_forM_cons]
  apply outcome_bind_of_error
  rw [syncNeuron, hindex, outcome_of_error_bind]

/-- Before the stores have been read there is nothing to write back, and they are read. -/
theorem outcome_syncWeights_of_unread {c : Compiled α} {weights biases : Array α} {b : Backend α}
    {ns : List Neuron} {ss : List Synapse} {e : Engine α} (hc : e.compiled = some c)
    (hb : e.backend = some b) (hs : e.Stocked P ns ss) (hneurons : e.neurons = [])
    (hsynapses : e.synapses = [])
    (hread : (onBackend Backend.readParameters).outcome e = (.ok (weights, biases), e)) :
    syncWeights.outcome e = (.ok (), { e.withCache ns ss with trained := false }) := by
  simp only [syncWeights, outcome_get_bind, hc, hb, Option.isNone_some, Bool.false_eq_true,
    if_false]
  rw [outcome_bind_of_ok hread, hneurons, hsynapses]
  exact outcome_bind_of_ok (outcome_refresh hs) _

/-- An engine whose cache has just been given the parameters that its backend runs. -/
structure Transcribed (P : Value → Prop) (c : Compiled α) (weights biases : Array α)
    (e : Engine α) : Prop where
  stocked : e.Stocked P e.neurons e.synapses
  hosted : e.Hosted
  compiled : e.compiled = some c
  answer : e.readParameters? = some (weights, biases)
  fits : e.Reflects c ∧ Tells e.synapses weights biases (Compiled.flatten e.neurons e.synapses) ∨
    e.Outrun c

/-- A graph compiled from nothing fits what is read after it, unless that has neurons. -/
theorem transcribed_of_unread {c : Compiled α} {weights biases : Array α} {e : Engine α}
    (h : Outlines [] [] c) (hs : e.Stocked P e.neurons e.synapses) (hhosted : e.Hosted)
    (hc : e.compiled = some c) (hread : e.readParameters? = some (weights, biases)) :
    e.Transcribed P c weights biases := by
  have hindex : c.index = [] := by
    rw [h.index, h.ids]
    rfl
  have hlinked : ∀ size ss, Compiled.linked [] size ss = [] :=
    fun size ss => List.filterMap_eq_nil_iff.mpr fun _ _ => rfl
  refine ⟨hs, hhosted, hc, hread, ?_⟩
  by_cases hneurons : e.neurons = []
  · apply Or.inl
    rw [hneurons]
    refine ⟨⟨?_, ?_⟩, ?_, ?_⟩
    · rw [hneurons]
      exact h.of_parts rfl rfl (by rw [hindex, hlinked, hlinked])
    · rw [hneurons]
      exact fun n hn => absurd hn List.not_mem_nil
    · exact fun i hi => absurd hi (Nat.not_lt_zero i)
    · intro k hk
      have hnone : k ∈ Compiled.linked [] 0 e.synapses := hk
      rw [hlinked] at hnone
      exact absurd hnone List.not_mem_nil
  · exact Or.inr ⟨h.size, hindex, hneurons⟩

/-- Parameters are written back altogether, or nothing is written at all. -/
theorem syncWeights_transcribes [Lossless α] {e : Engine α} (hP : IdClass P)
    (h : e.Accounted P) :
    (∃ f, syncWeights.outcome e = (.error f, e)) ∨
      ∃ c weights biases e', syncWeights.outcome e = (.ok (), e') ∧ e.compiled = some c ∧
        e.readParameters? = some (weights, biases) ∧ e'.trained = false ∧
          e'.Transcribed P c weights biases := by
  rcases syncWeights_refused_or_reads e with hrefused | ⟨c, weights, biases, b, hc, hb, hread⟩
  · exact Or.inl hrefused
  have hanswer := (outcome_readParameters_eq_ok hread).2.1
  rcases h.accounts c hc with ⟨hreflects, -⟩ | houtrun
  · refine Or.inr ⟨c, weights, biases, ?_⟩
    have houtline := hreflects.outline
    rcases h.cached with hs | ⟨hneurons, hsynapses⟩
    · have hplaceable := placeable_of_indexes houtline.toIndexes hP hs.neurons hreflects.known
      refine ⟨_, outcome_syncWeights_of_placeable hP hs hc hplaceable hb hread, hc, hanswer, rfl,
        stocked_synced hs c weights biases, h.hosted, hc, ?_, Or.inl ⟨⟨?_, ?_⟩, ?_⟩⟩
      · rw [← hanswer]
        exact readParameters?_congr rfl
      · exact outlines_synced houtline weights biases
      · intro m hm
        rcases List.mem_map.mp hm with ⟨n, hn, rfl⟩
        rw [rebiased_activation]
        exact hreflects.known n hn
      · exact tells_synced hP hs.neurons houtline weights biases
    · -- The graph was compiled before the stores were read, which this does for the first time.
      rcases h.stored with ⟨ns, ss, hs⟩
      rw [hneurons, hsynapses] at houtline
      refine ⟨_, outcome_syncWeights_of_unread hc hb hs hneurons hsynapses hread, hc, hanswer, rfl,
        transcribed_of_unread houtline (hs.of_stores rfl rfl) h.hosted hc ?_⟩
      rw [← hanswer]
      exact readParameters?_congr rfl
  · exact Or.inl (outcome_syncWeights_of_outrun hc hb houtrun hread)

theorem Transcribed.accounted {c : Compiled α} {weights biases : Array α} {e : Engine α}
    (h : e.Transcribed P c weights biases) : e.Accounted P := by
  refine ⟨⟨_, _, h.stocked⟩, Or.inl h.stocked, h.hosted, fun d hd => ?_⟩
  rw [h.compiled, Option.some.injEq] at hd
  rw [← hd]
  rcases h.fits with ⟨hreflects, htells⟩ | houtrun
  · exact Or.inl ⟨hreflects, fun _ => Or.inr ⟨weights, biases, h.answer, htells⟩⟩
  · exact Or.inr houtrun

variable [Lossless α]

theorem accounted_syncWeights (hP : IdClass P) :
    Respects (Kept (Accounted P)) (syncWeights (α := α)) := by
  intro e h
  rcases syncWeights_transcribes hP h with ⟨f, hrun⟩ | ⟨c, weights, biases, e', hrun, -, -, -, he'⟩
  · rw [after_of_outcome hrun]
    exact h
  · rw [after_of_outcome hrun]
    exact he'.accounted

/-!
## Whatever is done with an engine
-/

theorem accounted_syncIfTrained (hP : IdClass P) :
    Respects (Kept (Accounted P)) (syncIfTrained (α := α)) := by
  refine respects_get_bind fun e => ?_
  split
  · exact accounted_syncWeights hP e
  · exact refl e

omit [Lossless α] in
theorem accounted_compile_again (hP : IdClass P) :
    Respects (Kept (Accounted P)) (compile (α := α)) := by
  intro e h
  cases hready : e.hasReadyBackend with
  | true => exact accounted_compile hP h.stored h.cached hready
  | false =>
      have hrun : ∃ f, (compile (α := α)).outcome e = (.error f, e) := by
        rw [compile, outcome_get_bind, hready]
        exact ⟨_, rfl⟩
      rcases hrun with ⟨f, hrun⟩
      rw [after_of_outcome hrun]
      exact h

/-- A change writes parameters back, and then it is refused or the graph is compiled. -/
theorem Amends.accounted {writes : Synapse → Bool} {step : Attempt (Engine α) Projection}
    (h : Amends P writes step) (hP : IdClass P) :
    Respects (Kept (Accounted P)) (syncIfTrained >>= fun _ => step) := by
  refine (accounted_syncIfTrained hP).bind fun _ e he => ?_
  rcases he.follows with ⟨ns, ss, htracked⟩
  rcases h e false ns ss htracked with ⟨f, hrun⟩ | ⟨ns', ss', _, _, hs, -, hrun⟩
  · rw [after_of_outcome hrun]
    exact he
  · rw [after, hrun]
    exact accounted_refreshAndCompile hP ⟨ns', ss', hs⟩ he.hosted

omit [Scalar α] [Lossless α] in
theorem editing_hosted : Editing (Kept (Hosted (α := α))) where
  graph _ _ _ _ _ _ _ h := h

omit [Lossless α] in
theorem accounted_importGraph {doc : Value} (hP : IdClass P) (hdoc : Named P doc) :
    Respects (Kept (Accounted P)) (importGraph (α := α) doc) := by
  intro e h
  cases hparse : Document.parse doc with
  | error f =>
      have hrun : (importGraph doc).outcome e = (.error f, e) := by
        rw [importGraph, hparse, outcome_of_error_bind]
      rw [after_of_outcome hrun]
      exact h
  | ok parsed =>
      have hnamed := hdoc parsed.1 parsed.2 hparse
      have hstored := stored_replaceStored hP hnamed.1 hnamed.2 e h.stored
      have hhosted := editing_hosted.replaceStored parsed.1 parsed.2 e h.hosted
      rw [after_importGraph hparse rfl]
      exact accounted_refreshAndCompile hP hstored hhosted

omit [Lossless α] in
/-- A backend is acquired or booted only where nothing has been compiled. -/
theorem equipping_accounted : Equipping (Kept (Accounted (α := α) P)) where
  acquire e b hnone _ h := by
    have hc : e.compiled = none := by
      rw [← Option.not_isSome_iff_eq_none]
      intro hsome
      rcases hasReadyBackend_iff.mp (h.hosted hsome) with ⟨b, hb, -⟩
      rw [hnone] at hb
      cases hb
    have hsame : e.Undisturbed { e with backend := some b } := ⟨rfl, rfl, rfl, rfl, rfl, rfl⟩
    exact accounted_of_not_compiled (hsame.stored h.stored) (hsame.cached h.cached) hc
  boot e hready h := by
    have hc : e.compiled = none := by
      rw [← Option.not_isSome_iff_eq_none]
      intro hsome
      rw [h.hosted hsome] at hready
      cases hready
    have hsame := undisturbed_onBackend Backend.init e
    exact accounted_of_not_compiled (hsame.stored h.stored) (hsame.cached h.cached)
      ((compiled_onBackend Backend.init e).trans hc)
  retrained e settings h := h.of_quiet (quiet_retrained e settings)

omit [Lossless α] in
theorem accounted_init {e : Engine α} (hP : IdClass P) (h : e.Accounted P)
    (hfresh : e.seedIsFresh = true) : (init.after e).Accounted P := by
  have hequipped := equipping_accounted.equip e h
  have hsame := equipping_undisturbed.equip e
  cases hequip : (equip : Attempt (Engine α) Unit).outcome e with
  | mk r t =>
      rw [after_of_outcome hequip] at hequipped hsame
      cases r with
      | error f =>
          rw [init, after_of_outcome (outcome_bind_of_error hequip _)]
          exact hequipped
      | ok _ =>
          rcases hequipped.stored with ⟨ns, ss, hs⟩
          have hready := editing_ready.readGraph t (booted_of_equip hequip).hasReadyBackend
          rcases outcome_readGraph hP hs (hsame.seedIsFresh.trans hfresh) with ⟨u, hread, hu, -⟩
          rw [after_of_outcome hread] at hready
          rw [init, after, outcome_bind_of_ok hequip, outcome_bind_of_ok hread]
          have hcompile := accounted_compile hP ⟨_, _, hu⟩ (Or.inl hu) hready
          exact bind_induction (I := Accounted P) hcompile fun _ t ht =>
            (respects_projection (R := Eq) t) ▸ ht

omit [Lossless α] in
theorem accounted_trainTick (inputs targets deltas : Option (Operand α)) :
    Respects (Kept (Accounted P)) (trainTick inputs targets deltas) := by
  intro e h
  cases hrun : (trainTick inputs targets deltas).outcome e with
  | mk r e' =>
      rw [after_of_outcome hrun]
      cases r with
      | error f => exact h.of_quiet (quiet_of_trainTick_eq_error hrun)
      | ok loss =>
          rcases trained_of_trainTick_eq_ok hrun with ⟨hsame, htrained⟩
          refine h.of_unaltered hsame fun huntrained => ?_
          rw [htrained] at huntrained
          cases huntrained

theorem accounted_setTraining (hP : IdClass P) (settings : TrainingSettings) :
    Respects (Kept (Accounted P)) (setTraining (α := α) settings) := by
  refine (accounted_syncIfTrained hP).bind fun _ => ?_
  refine (respects_modify fun e h => h.of_quiet (quiet_retrained e settings)).bind fun _ => ?_
  refine respects_get_bind fun e => ?_
  split
  · exact ((accounted_compile_again hP).bind fun _ => respects_pure _) e
  · exact refl e

end Engine

open Engine
open Attempt
open Value (IdClass IsText)

variable {α : Type} [Scalar α] [Scalar.Lossless α] {P : Value → Prop}

theorem Action.accounted_perform {a : Action α} {e : Engine α} (hP : IdClass P)
    (ha : a.Admissible P e) (h : e.Accounted P) : (a.perform.after e).Accounted P := by
  have hquiet : ∀ {β : Type} {step : Attempt (Engine α) β}, Respects Quiet step →
      (step.after e).Accounted P := fun hstep => h.of_quiet (hstep e)
  cases a with
  | init =>
      rw [perform, after_void]
      exact accounted_init hP h ha
  | compile => exact (accounted_compile_again hP).void e h
  | close =>
      have hsame := undisturbed_close e
      exact accounted_of_not_compiled (hsame.stored h.stored) (hsame.cached h.cached) rfl
  | addNeuron | addSynapse | deleteNeuron | deleteSynapse | updateSynapseWeight =>
      rcases Action.amends hP ha rfl with ⟨_, hsettings⟩ | ⟨step, hperform, hamends⟩
      · cases hsettings
      · rw [hperform]
        exact (hamends.accounted hP).void e h
  | importGraph doc => exact (accounted_importGraph hP ha).void e h
  | exportGraph =>
      exact ((accounted_syncIfTrained hP).bind fun _ => respects_get_bind fun e => refl e).void e h
  | syncWeights => exact accounted_syncWeights hP e h
  | injectInput values => exact hquiet (running_quiet.injectInput values)
  | tick inputs => exact hquiet (running_quiet.tick inputs).void
  | prepareTraining targets rate =>
      exact hquiet (running_quiet.prepareTraining targets (quiet_takeRate rate))
  | trainTick inputs targets deltas => exact (accounted_trainTick inputs targets deltas).void e h
  | setTraining settings => exact accounted_setTraining hP settings e h
  | attend audience => exact hquiet (respects_modify fun e => running_quiet.audience e audience)

theorem Deed.accounted_perform {d : Deed α} {e : Engine α} (hP : IdClass P)
    (hd : d.Admissible P e) (h : e.Accounted P) : (d.perform.after e).Accounted P := by
  cases d with
  | openLoop rate => exact h.of_quiet (respects_openLoop (quiet_takeRate rate) e)
  | act a => exact a.accounted_perform hP hd h

namespace Engine

theorem Handled.accounted {read : Bool} {e : Engine α} (hP : IdClass P) (h : e.Handled P read) :
    e.Accounted P := by
  induction h with
  | created hns hss h =>
      rcases (Handled.created hns hss h).follows hP with ⟨ns, ss, htracked⟩
      rcases bind_eq_ok h with ⟨neuronStore, hneurons, h⟩
      rcases bind_eq_ok h with ⟨synapseStore, hsynapses, h⟩
      cases h
      exact accounted_of_not_compiled ⟨ns, ss, htracked.stocked⟩ (Or.inr ⟨rfl, rfl⟩) rfl
  | done _ d hd ih => exact d.accounted_perform hP hd ih

end Engine
end Plexus
