import Plexus.Proofs.Engine.Account
import Plexus.Proofs.Engine.Indexing

/-!
# When the compiled graph is up to date

An engine that is not marked as trained is up to date if it has compiled the graph that its cache
holds.  It is so after every compilation.  Once trained parameters have been written back, it is
so exactly if the compiled graph already had the parameters that the backend runs.
-/

namespace Plexus
namespace Engine

open Attempt
open Compiled (Outlines Tells Matches)
open Value (IdClass IsText)

/-- An engine has compiled the graph in its cache, but for how zeros are signed. -/
def UpToDate {α : Type} [Scalar α] (c : Compiled α) (e : Engine α) : Prop :=
  Matches c (Compiled.flatten e.neurons e.synapses)

variable {P : Value → Prop} {c : Compiled Float32} {weights biases : Array Float32}
  {e : Engine Float32}

theorem Outrun.size_ne (h : e.Outrun c) : c.size ≠ e.neurons.length := by
  rw [h.size]
  exact fun heq => h.neurons (List.length_eq_zero_iff.mp heq.symm)

/-- Where the cache tells what the backend runs, an engine is up to date if its graph does too. -/
theorem Reflects.upToDate_iff (h : e.Reflects c)
    (htells : Tells e.synapses weights biases (Compiled.flatten e.neurons e.synapses)) :
    e.UpToDate c ↔ Tells e.synapses weights biases c :=
  h.outline.matches_iff_tells (Compiled.outlines_flatten _ _) htells

theorem Accounted.upToDate_iff (h : e.Accounted P) (hc : e.compiled = some c)
    (huntrained : e.trained = false) :
    e.UpToDate c ↔ c.size = e.neurons.length ∧ ∀ weights biases,
      e.readParameters? = some (weights, biases) →
        Tells e.synapses weights biases (Compiled.flatten e.neurons e.synapses) →
          Tells e.synapses weights biases c := by
  constructor
  · intro hmatches
    refine ⟨hmatches.size, fun weights biases _ htells => ?_⟩
    rcases h.accounts c hc with ⟨hreflects, -⟩ | houtrun
    · exact (hreflects.upToDate_iff htells).mp hmatches
    · exact absurd hmatches.size houtrun.size_ne
  · rintro ⟨hsize, hall⟩
    rcases h.accounts c hc with ⟨hreflects, htold⟩ | houtrun
    · rcases htold huntrained with hflat | ⟨weights, biases, hread, htells⟩
      · rw [UpToDate, ← hflat]
        exact Compiled.matches_refl c
      · exact (hreflects.upToDate_iff htells).mpr (hall weights biases hread htells)
    · exact absurd hsize houtrun.size_ne

theorem Transcribed.upToDate_iff (h : e.Transcribed P c weights biases) :
    e.UpToDate c ↔ c.size = e.neurons.length ∧ Tells e.synapses weights biases c := by
  rcases h.fits with ⟨hreflects, htells⟩ | houtrun
  · rw [hreflects.upToDate_iff htells]
    exact ⟨fun hmatches => ⟨hreflects.outline.size, hmatches⟩, fun hboth => hboth.2⟩
  · constructor
    · intro hmatches
      exact absurd hmatches.size houtrun.size_ne
    · intro hboth
      exact absurd hboth.1 houtrun.size_ne

/--
Whatever is done with an engine on keyed stores, its statistics are those of the compiled graph
and, without the mark, its document is that of the cache.  The two can differ in parameters only,
unless the graph was compiled before its neurons were read.  They do so if the cache has come to
tell the parameters that the backend runs while the compiled graph tells others.  Writing
parameters back leaves the compiled graph as it is, so the two agree after it exactly if the
compiled graph had these parameters before.
-/
theorem compiled_upToDate_iff {read : Bool} (h : e.Handled IsText read) (hc : e.compiled = some c) :
    (∀ {ρ : Type} [Ratio ρ],
      (stats (ρ := ρ)).outcome e = (.ok (Stats.ofGraph c (some e.neurons)), e)) ∧
    (c.size = e.neurons.length → Outlines e.neurons e.synapses c) ∧
    (e.trained = false →
      exportGraph.outcome e =
          (.ok (Document.build e.neurons e.synapses e.settings.version), e) ∧
        (e.UpToDate c ↔ c.size = e.neurons.length ∧ ∀ weights biases,
          e.readParameters? = some (weights, biases) →
            Tells e.synapses weights biases (Compiled.flatten e.neurons e.synapses) →
              Tells e.synapses weights biases c)) ∧
    ∀ e', syncWeights.outcome e = (.ok (), e') →
      e'.compiled = some c ∧ e'.trained = false ∧ ∃ weights biases,
        e.readParameters? = some (weights, biases) ∧
          (e'.UpToDate c ↔ c.size = e'.neurons.length ∧ Tells e'.synapses weights biases c) := by
  have haccounted := h.accounted Value.idClass_isText
  refine ⟨?_, fun hsize => ?_, fun huntrained => ⟨?_, ?_⟩, fun e' hrun => ?_⟩
  · intro ρ _
    rw [stats, outcome_get_bind, hc]
    rfl
  · rcases haccounted.accounts c hc with ⟨hreflects, -⟩ | houtrun
    · exact hreflects.outline
    · exact absurd hsize houtrun.size_ne
  · rw [exportGraph, outcome_bind_of_ok (outcome_syncIfTrained_of_untrained huntrained)]
    rfl
  · exact haccounted.upToDate_iff hc huntrained
  · rcases syncWeights_transcribes Value.idClass_isText haccounted with
      ⟨f, hfails⟩ | ⟨d, weights, biases, t, hok, hd, hread, huntrained, ht⟩
    · rw [hfails] at hrun
      cases hrun
    · rw [hok] at hrun
      cases hrun
      rw [hc, Option.some.injEq] at hd
      rw [← hd] at ht
      exact ⟨ht.compiled, huntrained, weights, biases, hread, ht.upToDate_iff⟩

theorem handled_init_linked : ∃ read, (init.after linked).Handled IsText read := by
  have hdone := handled_linked.done (.act .init) rfl
  rw [Deed.perform, Action.perform, after_void] at hdone
  exact ⟨_, hdone⟩

/-- After a training tick the parameters are read back and told by the cache. -/
theorem compiled_upToDate_iff_linked :
    ∃ c e' weights biases,
      (∃ read, (tickLinked.perform.after (init.after linked)).Handled IsText read) ∧
      (tickLinked.perform.after (init.after linked)).compiled = some c ∧
      syncWeights.outcome (tickLinked.perform.after (init.after linked)) = (.ok (), e') ∧
      e'.compiled = some c ∧
      (e'.UpToDate c ↔ c.size = e'.neurons.length ∧ Tells e'.synapses weights biases c) := by
  rcases handled_init_linked with ⟨read, hinit⟩
  have htrained := hinit.done tickLinked trivial
  have hsome : (tickLinked.perform.after (init.after linked)).compiled.isSome = true := by
    decide +kernel
  have hok : syncWeights.succeeds (tickLinked.perform.after (init.after linked)) = true := by
    decide +kernel
  rcases Option.isSome_iff_exists.mp hsome with ⟨c, hc⟩
  rcases outcome_of_succeeds hok with ⟨_, hrun⟩
  rcases (compiled_upToDate_iff htrained hc).2.2.2 _ hrun with ⟨hc', -, weights, biases, -, hiff⟩
  exact ⟨c, _, weights, biases, ⟨_, htrained⟩, hc, hrun, hc', hiff⟩

/-- After training and an export, the document has a weight that the statistics do not know. -/
theorem not_upToDate_exported :
    ¬∀ (read : Bool) (e : Engine Float32) (c : Compiled Float32), e.Handled IsText read →
      e.compiled = some c → e.trained = false → e.UpToDate c := by
  intro h
  rcases handled_init_linked with ⟨read, hinit⟩
  have hexported := (hinit.done tickLinked trivial).done (.act .exportGraph) trivial
  have hsome : (exportedAfter tickLinked linked).compiled.isSome = true := by decide +kernel
  have huntrained : (exportedAfter tickLinked linked).trained = false := by decide +kernel
  -- The cell of the synapse: it has weight 1 in the compiled graph, another one in the cache.
  have hcell : ((exportedAfter tickLinked linked).compiled.map fun c =>
      (c.weights.size, Scalar.same (Scalar.cell c.weights 2) 1.0)) = some (4, true) := by
    decide +kernel
  have hflat : Scalar.same (Scalar.cell (Compiled.flatten (exportedAfter tickLinked linked).neurons
      (exportedAfter tickLinked linked).synapses).weights 2) (1.0 : Float32) = false := by
    decide +kernel
  rw [exportedAfter] at hsome huntrained hcell hflat
  revert hexported hsome huntrained hcell hflat
  generalize (Deed.act .exportGraph).perform.after
    (tickLinked.perform.after (init.after linked)) = e
  intro hexported hsome huntrained hcell hflat
  rcases Option.isSome_iff_exists.mp hsome with ⟨c, hc⟩
  rw [hc, Option.map_some, Option.some.injEq, Prod.mk.injEq] at hcell
  have hmatches := h _ e c hexported hc huntrained
  have hlike := Single.like_symm (hmatches.weight (k := 2) (by rw [hcell.1]; decide))
  rcases Single.like_trans hlike (Or.inl hcell.2) with hsame | ⟨-, hnan⟩
  · rw [hflat] at hsame
    cases hsame
  · exact absurd hnan (by decide +kernel)

end Engine
end Plexus
