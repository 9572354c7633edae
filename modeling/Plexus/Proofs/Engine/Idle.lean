import Mathlib.Data.List.Nodup
import Plexus.Proofs.Engine.Export

/-!
# Writing back parameters that have not changed

The backend holds parameters less precisely than they are stored, and one weight for all synapses
between two neurons.  What it was given when the graph was compiled is therefore not always what
is stored, even if it has not changed since.  Writing it back leaves an entry alone exactly if the
parameter that was compiled for the entry, rounded, is the one that is stored.
-/

namespace Plexus
namespace Engine

open Attempt
open Scalar (Storable)
open Value (IdClass IsText)

variable {α : Type} [Scalar α] {P : Value → Prop}

/-!
## Entries that are left alone
-/

/-- Whether a scalar is a double that is stored, but for how zeros are signed. -/
def Shows (x : α) (stored : Float) : Prop :=
  Scalar.toFloat x = stored ∨ (Scalar.toFloat x == stored) = true

/-- An entry is left alone exactly if what would be written into it is stored there. -/
theorem write_eq_self_iff {γ : Type} {x : α} {y : γ} (write : Float → γ) (read : γ → Float)
    (hread : ∀ d, read (write d) = d) (hself : write (read y) = y) :
    (if Scalar.toFloat x != read y then write (Scalar.toFloat x) else y) = y ↔
      Shows x (read y) := by
  rw [Shows]
  cases hsame : Scalar.toFloat x == read y with
  | true =>
      rw [bne, hsame, Bool.not_true, if_neg Bool.false_ne_true]
      exact ⟨fun _ => Or.inr rfl, fun _ => rfl⟩
  | false =>
      rw [bne, hsame, Bool.not_false, if_pos rfl]
      -- What differs is written, which changes nothing only if both are the same NaN.
      constructor
      · intro heq
        apply Or.inl
        rw [← hread (Scalar.toFloat x), heq]
      · rintro (heq | heq)
        · rw [heq, hself]
        · cases heq

theorem rebiased_eq_self_iff {c : Compiled α} {biases : Array α} {n : Neuron} {i : Nat}
    (hi : c.index.find? n.id = some i) :
    rebiased c biases n = n ↔ Shows (Scalar.cell biases i) n.bias := by
  rw [rebiased, hi]
  exact write_eq_self_iff (y := n) (fun bias => { n with bias }) Neuron.bias (fun _ => rfl) rfl

theorem reweighted_eq_self_iff {c : Compiled α} {weights : Array α} {s : Synapse} {k : Nat}
    (hk : Compiled.cellOf? c.index c.size s = some k) :
    reweighted c weights s = s ↔ Shows (Scalar.cell weights k) s.weight := by
  rw [reweighted, hk]
  exact write_eq_self_iff (y := s) (fun weight => { s with weight }) Synapse.weight
    (fun _ => rfl) rfl

/-- Among entries whose names are kept, one is still there if it has been kept itself. -/
theorem mem_map_iff_of_nodup {γ δ : Type} {f : γ → γ} {name : γ → δ} {xs : List γ} {x : γ}
    (hname : ∀ x, name (f x) = name x) (hnodup : (xs.map name).Nodup) (hx : x ∈ xs) :
    x ∈ xs.map f ↔ f x = x := by
  constructor
  · intro hmem
    rcases List.mem_map.mp hmem with ⟨y, hy, hfy⟩
    have hsame : name y = name x := by rw [← hname y, hfy]
    rw [← List.inj_on_of_nodup_map hnodup hy hx hsame, hfy]
    exact (List.inj_on_of_nodup_map hnodup hy hx hsame).symm
  · intro heq
    rw [← heq]
    exact List.mem_map_of_mem hx

theorem map_eq_self_iff_of_nodup {γ δ : Type} {f : γ → γ} {name : γ → δ} {xs : List γ}
    (hname : ∀ x, name (f x) = name x) (hnodup : (xs.map name).Nodup) :
    xs.map f = xs ↔ ∀ x ∈ xs, x ∈ xs.map f := by
  constructor
  · intro heq x hx
    rw [heq]
    exact hx
  · intro hkept
    have hself : xs.map f = xs.map id := List.map_congr_left fun x hx =>
      (mem_map_iff_of_nodup hname hnodup hx).mp (hkept x hx)
    rw [hself, List.map_id]

variable {c : Compiled α} {rows : Nat} {a : Arena α} {b : Backend α} {e : Engine α}

/-- A neuron is left alone exactly if its stored bias is that of its slot. -/
theorem mem_synced_neurons_iff (hP : IdClass P) (he : e.Coherent P) (h : e.Fits c rows a b)
    (weights biases : Array α) {n : Neuron} (hn : n ∈ e.neurons) :
    n ∈ (e.synced c weights biases).neurons ↔
      Shows (Scalar.cell biases (c.place n.id)) n.bias := by
  have hplace := (h.place hP he.stocked.neurons hn).1
  rw [← rebiased_eq_self_iff hplace]
  exact mem_map_iff_of_nodup (rebiased_id c biases) (he.stocked.neurons.nodup_ids hP) hn

/-- A synapse is left alone exactly if its stored weight is that of its cell. -/
theorem mem_synced_synapses_iff (hP : IdClass P) (he : e.Coherent P) (weights biases : Array α)
    {s : Synapse} {k : Nat} (hs : s ∈ e.synapses)
    (hk : Compiled.cellOf? c.index c.size s = some k) :
    s ∈ (e.synced c weights biases).synapses ↔ Shows (Scalar.cell weights k) s.weight := by
  rw [← reweighted_eq_self_iff hk]
  exact mem_map_iff_of_nodup (reweighted_id c weights) (he.stocked.synapses.nodup_ids hP) hs

omit [Scalar α] in
theorem Fits.cellOf?_of_knows (he : e.Coherent IsText) (h : e.Fits c rows a b) {s : Synapse}
    (hsource : e.knows s.source = true) (htarget : e.knows s.target = true) :
    Compiled.cellOf? c.index c.size s =
      some (c.place s.target * c.size + c.place s.source) := by
  rcases exists_of_knows he.stocked hsource with ⟨u, hu, huId⟩
  rcases exists_of_knows he.stocked htarget with ⟨v, hv, hvId⟩
  have hu' := (h.place Value.idClass_isText he.stocked.neurons hu).1
  have hv' := (h.place Value.idClass_isText he.stocked.neurons hv).1
  rw [huId] at hu'
  rw [hvId] at hv'
  rw [Compiled.cellOf?, hu', hv']

omit [Scalar α] in
theorem Fits.knows_of_find? (he : e.Coherent P) (h : e.Fits c rows a b) {id : Value} {i : Nat}
    (hi : c.index.find? id = some i) :
    e.knows id = true := by
  rw [h.index] at hi
  rcases IndexTable.find?_ofIds_eq_some (h.apart he.stocked.neurons) hi with ⟨key, hkey, hsame⟩
  rw [h.ids] at hkey
  rcases List.mem_map.mp (List.mem_of_getElem? hkey) with ⟨n, hn, rfl⟩
  exact List.any_eq_true.mpr ⟨n, hn, hsame⟩

/-- A synapse with an end that is no neuron is left alone. -/
theorem mem_synced_of_unknown (he : e.Coherent P) (h : e.Fits c rows a b)
    (weights biases : Array α) {s : Synapse} (hs : s ∈ e.synapses)
    (hunknown : (e.knows s.source && e.knows s.target) = false) :
    s ∈ (e.synced c weights biases).synapses := by
  have hnone : Compiled.cellOf? c.index c.size s = none := by
    rw [Compiled.cellOf?]
    split
    · next i j hi hj =>
        rw [h.knows_of_find? he hi, h.knows_of_find? he hj] at hunknown
        cases hunknown
    · rfl
  have hself : reweighted c weights s = s := by rw [reweighted, hnone]
  show s ∈ e.synapses.map (reweighted c weights)
  rw [← hself]
  exact List.mem_map_of_mem hs

/-- The graph is left as it is exactly if all its entries are left alone. -/
theorem synced_eq_iff (hP : IdClass P) (he : e.Coherent P) (weights biases : Array α) :
    (e.synced c weights biases).neurons = e.neurons ∧
        (e.synced c weights biases).synapses = e.synapses ↔
      (∀ n ∈ e.neurons, n ∈ (e.synced c weights biases).neurons) ∧
        ∀ s ∈ e.synapses, s ∈ (e.synced c weights biases).synapses := by
  have hneurons := map_eq_self_iff_of_nodup (rebiased_id c biases)
    (he.stocked.neurons.nodup_ids hP)
  have hsynapses := map_eq_self_iff_of_nodup (reweighted_id c weights)
    (he.stocked.synapses.nodup_ids hP)
  exact and_congr hneurons hsynapses

/-!
## Since the graph was compiled
-/

/-- An engine whose graph has just been compiled and given to its backend. -/
structure Fresh (P : Value → Prop) (e₀ : Engine α) : Prop where
  coherent : e₀.Coherent P
  mirrored : e₀.Mirrored
  compiled : e₀.compiled.isSome = true

/-- What an engine comes to as long as its graph is not compiled again. -/
inductive Since (P : Value → Prop) (e₀ : Engine α) : Engine α → Prop
  | start : Since P e₀ e₀
  | calm {e e' : Engine α} (h : Since P e₀ e) (hcalm : e.Calm e') : Since P e₀ e'
  | synced {e : Engine α} {c : Compiled α} {weights biases : Array α} (h : Since P e₀ e)
      (hc : e.compiled = some c) (hparameters : e.parameters = some (weights, biases)) :
      Since P e₀ (e.synced c weights biases)
  | trained {e e' : Engine α} (h : Since P e₀ e) (htrained : e.Trained P e') : Since P e₀ e'

theorem Rebuilt.fresh {ns : List Neuron} {ss : List Synapse} {settings : TrainingSettings}
    {e : Engine α} (h : e.Rebuilt P ns ss settings) (hsome : e.compiled.isSome = true) :
    Fresh P e := ⟨h.coherent, h.mirrored, hsome⟩

/-- A change that succeeds compiles its graph anew. -/
theorem Reachable.fresh_after {e : Engine α} {a : Action α} (h : e.Reachable P) (hP : IdClass P)
    (hmutates : a.mutates = true) (ha : a.Admissible P e)
    (hok : a.perform.succeeds e = true) (hsome : (a.perform.after e).compiled.isSome = true) :
    Fresh P (a.perform.after e) := by
  rcases (a.changes hP (h.coherent hP) ha hmutates).rebuilt hok with
    ⟨-, ns, ss, settings, -, -, hrebuilt, -⟩
  exact hrebuilt.fresh hsome

theorem Since.saved {e₀ e e' : Engine α} (h : Since P e₀ e) (hsaved : e.Saved e') :
    Since P e₀ e' := by
  rcases hsaved with ⟨-, rfl⟩ | ⟨-, c, weights, biases, hc, hparameters, rfl⟩
  · exact h
  · exact h.synced hc hparameters

/-- Each reachable engine that has a graph compiled has come from one that had just done so. -/
theorem Reachable.exists_since {e : Engine α} (hP : IdClass P) (h : e.Reachable P)
    (hsome : e.compiled.isSome = true) :
    ∃ e₀ : Engine α, e₀.Reachable P ∧ Fresh P e₀ ∧ Since P e₀ e := by
  -- Induction on what has been done: a compilation starts anew, all else goes on from before it.
  induction h with
  | opened h hinit =>
      rcases h.rebuilt hP hinit with ⟨ns, ss, hrebuilt, -⟩
      exact ⟨_, .opened h hinit, hrebuilt.fresh hsome, .start⟩
  | @step e h a ha ih =>
      cases a.advances hP (h.coherent hP) ha with
      | settled hsettles =>
          cases hsettles with
          | rested hrested =>
              rw [hrested.calm.compiled] at hsome
              rcases ih hsome with ⟨e₀, hreach, hfresh, hsince⟩
              exact ⟨e₀, hreach, hfresh, hsince.calm hrested.calm⟩
          | closed _ hclosed =>
              rw [hclosed] at hsome
              cases hsome
          | saved hsaved _ =>
              rw [hsaved.compiled] at hsome
              rcases ih hsome with ⟨e₀, hreach, hfresh, hsince⟩
              exact ⟨e₀, hreach, hfresh, hsince.saved hsaved⟩
          | rebuilt ns ss settings hrebuilt =>
              exact ⟨_, h.step a ha, hrebuilt.fresh hsome, .start⟩
      | synced c weights biases hc hparameters heq =>
          rcases ih (by rw [hc]; rfl) with ⟨e₀, hreach, hfresh, hsince⟩
          rw [heq]
          exact ⟨e₀, hreach, hfresh, hsince.synced hc hparameters⟩
      | trained htrained =>
          rw [htrained.compiled] at hsome
          rcases ih hsome with ⟨e₀, hreach, hfresh, hsince⟩
          exact ⟨e₀, hreach, hfresh, hsince.trained htrained⟩

theorem Since.compiled {e₀ e : Engine α} (h : Since P e₀ e) : e.compiled = e₀.compiled := by
  induction h with
  | start => rfl
  | calm h hcalm ih => exact hcalm.compiled.trans ih
  | synced h hc hparameters ih => exact ih
  | trained h htrained ih => exact htrained.compiled.trans ih

/-- What stays as it was until the graph is compiled again: the graph, but for parameters. -/
theorem Since.outlines {e₀ e : Engine α} (h : Since P e₀ e) :
    e.neurons.map Neuron.outline = e₀.neurons.map Neuron.outline ∧
      e.synapses.map Synapse.outline = e₀.synapses.map Synapse.outline := by
  induction h with
  | start => exact ⟨rfl, rfl⟩
  | calm h hcalm ih =>
      rw [hcalm.neurons, hcalm.synapses]
      exact ih
  | @synced e c weights biases h hc hparameters ih =>
      have hkept := outline_synced c weights biases e
      exact ⟨hkept.1.trans ih.1, hkept.2.trans ih.2⟩
  | trained h htrained ih =>
      rw [htrained.neurons, htrained.synapses]
      exact ih

theorem Since.exists_neuron {e₀ e : Engine α} {n : Neuron} (h : Since P e₀ e)
    (hn : n ∈ e.neurons) :
    ∃ n₀ ∈ e₀.neurons, n₀.id = n.id := by
  have houtline : n.outline ∈ e₀.neurons.map Neuron.outline := by
    rw [← h.outlines.1]
    exact List.mem_map_of_mem hn
  rcases List.mem_map.mp houtline with ⟨n₀, hn₀, heq⟩
  exact ⟨n₀, hn₀, congrArg Prod.fst heq⟩

theorem Since.exists_synapse {e₀ e : Engine α} {s : Synapse} (h : Since P e₀ e)
    (hs : s ∈ e.synapses) :
    ∃ d ∈ e₀.synapses, d.source = s.source ∧ d.target = s.target := by
  have houtline : s.outline ∈ e₀.synapses.map Synapse.outline := by
    rw [← h.outlines.2]
    exact List.mem_map_of_mem hs
  rcases List.mem_map.mp houtline with ⟨d, hd, heq⟩
  exact ⟨d, hd, congrArg (fun o => o.2.1) heq, congrArg (fun o => o.2.2) heq⟩

/-!
## Parameters that have not changed
-/

/-- What writing back leaves of parameters that are as they were when the graph was compiled. -/
structure LeavesIdle (e₀ e e' : Engine α) : Prop where
  bias : ∀ n ∈ e.neurons, e.runningBias n.id = e₀.runningBias n.id →
    ∃ n₀ ∈ e₀.neurons, n₀.id = n.id ∧ (n ∈ e'.neurons ↔
      Shows (Scalar.store e₀.training.basePrecision (Scalar.ofFloat n₀.bias) : α) n.bias)
  weight : ∀ s ∈ e.synapses, e.knows s.source = true → e.knows s.target = true →
    e.runningWeight s.source s.target = e₀.runningWeight s.source s.target →
    ∃ s₀, Synapse.lastJoining e₀.synapses s.source s.target = some s₀ ∧ (s ∈ e'.synapses ↔
      Shows (Scalar.store e₀.training.basePrecision (Scalar.ofFloat s₀.weight) : α) s.weight)
  loose : ∀ s ∈ e.synapses, (e.knows s.source && e.knows s.target) = false → s ∈ e'.synapses

/-- Whether the parameters that were compiled, rounded, are those that an engine stores. -/
structure Shown (e₀ e : Engine α) : Prop where
  bias : ∀ n ∈ e.neurons, ∀ n₀ ∈ e₀.neurons, n₀.id = n.id →
    Shows (Scalar.store e₀.training.basePrecision (Scalar.ofFloat n₀.bias) : α) n.bias
  weight : ∀ s ∈ e.synapses, e.knows s.source = true → e.knows s.target = true →
    ∀ s₀, Synapse.lastJoining e₀.synapses s.source s.target = some s₀ →
    Shows (Scalar.store e₀.training.basePrecision (Scalar.ofFloat s₀.weight) : α) s.weight

section Idle

variable [Storable α] {e₀ : Engine α} (he : e.Coherent IsText) (hc : e.compiled = some c)
  (hfits : e.Fits c rows a b) (hfresh : Fresh IsText e₀) (hsince : Since IsText e₀ e)

include hc hfits hfresh hsince

/-- A bias that has not changed is that of the compiled neuron, rounded. -/
theorem cell_bias_of_idle {n : Neuron} (hn : n ∈ e.neurons)
    (hidle : e.runningBias n.id = e₀.runningBias n.id) :
    ∃ n₀ ∈ e₀.neurons, n₀.id = n.id ∧ Scalar.cell a.biases (c.place n.id) =
      Scalar.store e₀.training.basePrecision (Scalar.ofFloat n₀.bias) := by
  rcases hsince.exists_neuron hn with ⟨n₀, hn₀, hid⟩
  refine ⟨n₀, hn₀, hid, ?_⟩
  rw [hfits.runningBias_eq hc, ← hid,
    hfresh.mirrored.runningBias_eq hfresh.coherent hfresh.compiled hn₀] at hidle
  rw [← hid]
  exact Option.some.inj hidle

include he

/-- A weight that has not changed is that of the last synapse compiled for its cell, rounded. -/
theorem cell_weight_of_idle {s : Synapse} (hs : s ∈ e.synapses)
    (hsource : e.knows s.source = true) (htarget : e.knows s.target = true)
    (hidle : e.runningWeight s.source s.target = e₀.runningWeight s.source s.target) :
    ∃ s₀, Synapse.lastJoining e₀.synapses s.source s.target = some s₀ ∧
      Scalar.cell a.weights (c.place s.target * c.size + c.place s.source) =
        Scalar.store e₀.training.basePrecision (Scalar.ofFloat s₀.weight) := by
  rcases exists_of_knows he.stocked hsource with ⟨u, hu, huId⟩
  rcases exists_of_knows he.stocked htarget with ⟨v, hv, hvId⟩
  rcases hsince.exists_neuron hu with ⟨u₀, hu₀, huId₀⟩
  rcases hsince.exists_neuron hv with ⟨v₀, hv₀, hvId₀⟩
  -- The synapse was compiled for its cell too, but it need not have been the last one.
  rcases hsince.exists_synapse hs with ⟨d, hd, hends⟩
  have htext := he.stocked.ends s hs
  have hdText := hfresh.coherent.stocked.ends d hd
  have hjoins := (Synapse.joins_iff hdText.1 hdText.2 htext.1 htext.2).mpr hends
  rcases Synapse.lastJoining_of_mem hd hjoins with ⟨s₀, hs₀⟩
  refine ⟨s₀, hs₀, ?_⟩
  have hrunning := hfresh.mirrored.runningWeight_eq hfresh.coherent hfresh.compiled hu₀ hv₀
  rw [huId₀, hvId₀, huId, hvId, hs₀] at hrunning
  rw [hfits.runningWeight_eq hc, hrunning] at hidle
  exact Option.some.inj hidle

theorem leavesIdle_synced : LeavesIdle e₀ e (e.synced c a.weights a.biases) := by
  have hP := Value.idClass_isText
  constructor
  case bias =>
    intro n hn hidle
    rcases cell_bias_of_idle hc hfits hfresh hsince hn hidle with ⟨n₀, hn₀, hid, hcell⟩
    refine ⟨n₀, hn₀, hid, ?_⟩
    rw [← hcell]
    exact mem_synced_neurons_iff hP he hfits _ _ hn
  case weight =>
    intro s hs hsource htarget hidle
    rcases cell_weight_of_idle he hc hfits hfresh hsince hs hsource htarget hidle with
      ⟨s₀, hs₀, hcell⟩
    refine ⟨s₀, hs₀, ?_⟩
    rw [← hcell]
    exact mem_synced_synapses_iff hP he _ _ hs (hfits.cellOf?_of_knows he hsource htarget)
  case loose =>
    intro s hs hunknown
    exact mem_synced_of_unknown he hfits _ _ hs hunknown

/-- If no parameter has changed, the graph stays as it is exactly if it shows them all. -/
theorem synced_eq_iff_shown (hidle : e.readParameters? = e₀.readParameters?) :
    (e.synced c a.weights a.biases).neurons = e.neurons ∧
        (e.synced c a.weights a.biases).synapses = e.synapses ↔ Shown e₀ e := by
  have hleaves := leavesIdle_synced he hc hfits hfresh hsince
  have hcompiled := hsince.compiled
  have hbias : ∀ id, e.runningBias id = e₀.runningBias id := by
    intro id
    rw [runningBias, runningBias, hidle, hcompiled]
  have hweight : ∀ source target,
      e.runningWeight source target = e₀.runningWeight source target := by
    intro source target
    rw [runningWeight, runningWeight, hidle, hcompiled]
  rw [synced_eq_iff Value.idClass_isText he]
  constructor
  · rintro ⟨hneurons, hsynapses⟩
    constructor
    case bias =>
      intro n hn n₀ hn₀ hid
      -- Identifiers are different, so the neuron that was compiled is the one that is given.
      rcases hleaves.bias n hn (hbias n.id) with ⟨m₀, hm₀, hm, hiff⟩
      have hnodup := hfresh.coherent.stocked.neurons.nodup_ids Value.idClass_isText
      rw [← List.inj_on_of_nodup_map hnodup hm₀ hn₀ (hm.trans hid.symm)]
      exact hiff.mp (hneurons n hn)
    case weight =>
      intro s hs hsource htarget s₀ hs₀
      rcases hleaves.weight s hs hsource htarget (hweight _ _) with ⟨d₀, hd₀, hiff⟩
      rw [hd₀, Option.some.injEq] at hs₀
      rw [← hs₀]
      exact hiff.mp (hsynapses s hs)
  · intro hshown
    constructor
    · intro n hn
      rcases hleaves.bias n hn (hbias n.id) with ⟨n₀, hn₀, hid, hiff⟩
      exact hiff.mpr (hshown.bias n hn n₀ hn₀ hid)
    · intro s hs
      cases hknown : e.knows s.source && e.knows s.target with
      | false => exact hleaves.loose s hs hknown
      | true =>
          rcases Bool.and_eq_true_iff.mp hknown with ⟨hsource, htarget⟩
          rcases hleaves.weight s hs hsource htarget (hweight _ _) with ⟨s₀, hs₀, hiff⟩
          exact hiff.mpr (hshown.weight s hs hsource htarget s₀ hs₀)

end Idle

/-!
## Exports and changes
-/

/-- What writing back comes to on its own account, and before an export or a change. -/
structure WritesBack (P : Value → Prop) (e e' : Engine α) : Prop where
  sync : syncWeights.outcome e = (.ok (), e')
  stored : e'.neuronStore.getAll = .ok e'.neurons ∧ e'.synapseStore.getAll = .ok e'.synapses
  untrained : e.trained = false → syncIfTrained.outcome e = (.ok (), e)
  exported : e.trained = true → exportGraph.outcome e =
    (.ok (Document.build e'.neurons e'.synapses e'.settings.version), e')
  changed : e.trained = true → ∀ a : Action α, a.mutates = true → a.Admissible P e →
    a.perform.succeeds e = true →
    Keeps a.writes e'.neurons e'.synapses (a.perform.after e).neurons (a.perform.after e).synapses

theorem Saved.eq_synced {e₁ : Engine α} (hsaved : e.Saved e₁) (htrained : e.trained = true)
    (hc : e.compiled = some c) (h : e.Fits c rows a b) :
    e₁ = e.synced c a.weights a.biases := by
  rcases hsaved with ⟨huntrained, -⟩ | ⟨-, d, weights, biases, hd, hparameters, rfl⟩
  · rw [htrained] at huntrained
    cases huntrained
  · rw [hc] at hd
    rw [h.parameters_eq] at hparameters
    cases hd
    cases hparameters
    rfl

theorem writesBack_synced (hP : IdClass P) (he : e.Coherent P) (hc : e.compiled = some c)
    (h : e.Fits c rows a b) :
    e.WritesBack P (e.synced c a.weights a.biases) where
  sync := outcome_syncWeights hP he.stocked hc h
  stored := (coherent_synced he a.weights a.biases).stocked.getAll
  untrained := by
    intro huntrained
    rw [syncIfTrained, outcome_get_bind, huntrained, if_neg Bool.false_ne_true, outcome_pure]
  exported := by
    intro htrained
    rcases exportGraph_eq_ok hP he (by rw [hc]; rfl) with ⟨e₁, hsaved, -, hrun⟩
    rw [hrun, hsaved.eq_synced htrained hc h]
  changed := by
    intro htrained a hmutates ha hok
    rcases (a.changes hP he ha hmutates).rebuilt hok with
      ⟨e₁, ns, ss, settings, hsaved, hkeeps, hrebuilt, -⟩
    rw [hrebuilt.neurons, hrebuilt.synapses, ← hsaved.eq_synced htrained hc h]
    exact hkeeps

/--
Parameters that are as they were when the graph was last compiled need not be left alone.  A
neuron is left alone exactly if its bias, as it was compiled and rounded, is the one that is
stored; a synapse is, exactly if that holds of the weight of the last synapse that was compiled
for its cell.  So a history that changes no parameter leaves the graph as it is exactly if all
that is stored is shown by what was compiled.
-/
theorem writeBack_leaves_iff {e : Engine Float32} (h : e.Reachable IsText)
    (hc : e.compiled.isSome = true) :
    (∃ e₀ : Engine Float32, e₀.Reachable IsText ∧ Fresh IsText e₀ ∧ Since IsText e₀ e) ∧
    ∃ e', e.WritesBack IsText e' ∧
      ∀ e₀, Fresh IsText e₀ → Since IsText e₀ e →
        LeavesIdle e₀ e e' ∧
        (e.readParameters? = e₀.readParameters? →
          (e'.neurons = e.neurons ∧ e'.synapses = e.synapses ↔ Shown e₀ e)) := by
  have hP := Value.idClass_isText
  have he := h.coherent hP
  refine ⟨h.exists_since hP hc, ?_⟩
  rcases he.exists_fits hc with ⟨c, rows, a, b, hc, hfits⟩
  refine ⟨e.synced c a.weights a.biases, writesBack_synced hP he hc hfits, ?_⟩
  intro e₀ hfresh hsince
  constructor
  · exact leavesIdle_synced he hc hfits hfresh hsince
  · intro hidle
    exact synced_eq_iff_shown he hc hfits hfresh hsince hidle

/-- An engine on some neurons with training prepared on targets none of which counts. -/
def aimless (size : Nat) (e : Engine Float32) : Engine Float32 :=
  (Action.prepareTraining (.ok (Array.replicate size Scalar.noTarget)) none).perform.after e

/-- Such an engine after a training tick. -/
def untargeted (size : Nat) (e : Engine Float32) : Engine Float32 :=
  (Action.trainTick (some (.ok (Array.replicate size 0.0))) none none).perform.after
    (aimless size e)

theorem reachable_aimless (size : Nat) {e : Engine Float32} (h : e.Reachable IsText) :
    (aimless size e).Reachable IsText :=
  h.step (.prepareTraining _ none) trivial

theorem reachable_untargeted (size : Nat) {e : Engine Float32} (h : e.Reachable IsText) :
    (untargeted size e).Reachable IsText :=
  (reachable_aimless size h).step (.trainTick _ none none) trivial

theorem since_untargeted (size : Nat) {e : Engine Float32} (h : e.Reachable IsText) :
    Since IsText e (untargeted size e) := by
  have hP := Value.idClass_isText
  have hprepared : Since IsText e (aimless size e) := by
    rcases Action.rests (a := .prepareTraining _ none) hP (h.coherent hP) rfl with
      hrested | hsaved
    · exact Since.start.calm hrested.calm
    · exact Since.start.saved hsaved
  show Since IsText e ((void (trainTick _ none none)).after _)
  rw [after_void]
  rcases trainTick_cases ((reachable_aimless size h).coherent hP)
    (some (.ok (Array.replicate size 0.0))) none none with hrested | htrained
  · exact hprepared.calm hrested.calm
  · exact hprepared.trained htrained

/-- Two neurons and the second of the synapses between them. -/
def thinned : Engine Float32 :=
  (Action.deleteSynapse (.text "s")).perform.after (init.after parallel)

theorem reachable_thinned : thinned.Reachable IsText :=
  reachable_parallel.step (.deleteSynapse (.text "s")) trivial

theorem fresh_thinned : Fresh IsText thinned :=
  reachable_parallel.fresh_after Value.idClass_isText rfl trivial (by decide +kernel)
    (by decide +kernel)

theorem writeBack_leaves_iff_thinned :
    (untargeted 2 thinned).trained = true ∧
      ∃ e', syncWeights.outcome (untargeted 2 thinned) = (.ok (), e') ∧
        e'.neurons = (untargeted 2 thinned).neurons ∧
        e'.synapses = (untargeted 2 thinned).synapses := by
  have hcompiled : (untargeted 2 thinned).compiled.isSome = true := by decide +kernel
  have hbiases : ((untargeted 2 thinned).neurons.all fun n => thinned.neurons.all fun n₀ =>
      Scalar.toFloat (Scalar.store (α := Float32) thinned.training.basePrecision
        (Scalar.ofFloat n₀.bias)) == n.bias) = true := by decide +kernel
  have hweights : ((untargeted 2 thinned).synapses.all fun s => thinned.synapses.all fun s₀ =>
      Scalar.toFloat (Scalar.store (α := Float32) thinned.training.basePrecision
        (Scalar.ofFloat s₀.weight)) == s.weight) = true := by decide +kernel
  have hshown : Shown thinned (untargeted 2 thinned) := by
    constructor
    · intro n hn n₀ hn₀ _
      exact Or.inr (List.all_eq_true.mp (List.all_eq_true.mp hbiases n hn) n₀ hn₀)
    · intro s hs _ _ s₀ hs₀
      have hmem := (Synapse.mem_of_lastJoining hs₀).1
      exact Or.inr (List.all_eq_true.mp (List.all_eq_true.mp hweights s hs) s₀ hmem)
  rcases (writeBack_leaves_iff (reachable_untargeted 2 reachable_thinned) hcompiled).2 with
    ⟨e', hwrites, hleaves⟩
  have hidle := (hleaves thinned fresh_thinned (since_untargeted 2 reachable_thinned)).2
    (by decide +kernel)
  exact ⟨by decide +kernel, e', hwrites.sync, hidle.mpr hshown⟩

/-- The graph with parallel synapses, and a neuron whose bias is no single-precision number. -/
def uneven : Engine Float32 :=
  (Action.addNeuron (linearNeuron "c" 0.1)).perform.after (init.after parallel)

theorem reachable_uneven : uneven.Reachable IsText :=
  reachable_parallel.step (.addNeuron (linearNeuron "c" 0.1)) ⟨"c", rfl⟩

/-- A neuron and a synapse are rewritten although no parameter has changed. -/
theorem unchanged_parameters_rewritten :
    Fresh IsText uneven ∧ Since IsText uneven (untargeted 3 uneven) ∧
      (untargeted 3 uneven).readParameters? = uneven.readParameters? ∧
      (∃ n ∈ (untargeted 3 uneven).neurons,
        n ∉ (syncWeights.after (untargeted 3 uneven)).neurons) ∧
      ∃ s ∈ (untargeted 3 uneven).synapses,
        s ∉ (syncWeights.after (untargeted 3 uneven)).synapses := by
  have hbias : ((untargeted 3 uneven).neurons.any fun n => n.bias == 0.1) = true := by
    decide +kernel
  have hrebiased : ((syncWeights.after (untargeted 3 uneven)).neurons.any
      fun n => n.bias == 0.1) = false := by decide +kernel
  have hweight : ((untargeted 3 uneven).synapses.any fun s => s.weight == 1.0) = true := by
    decide +kernel
  have hreweighted : ((syncWeights.after (untargeted 3 uneven)).synapses.any
      fun s => s.weight == 1.0) = false := by decide +kernel
  rcases List.any_eq_true.mp hbias with ⟨n, hn, htenth⟩
  rcases List.any_eq_true.mp hweight with ⟨s, hs, hone⟩
  refine ⟨?_, since_untargeted 3 reachable_uneven, by decide +kernel, ⟨n, hn, ?_⟩, s, hs, ?_⟩
  · exact reachable_parallel.fresh_after Value.idClass_isText rfl ⟨"c", rfl⟩ (by decide +kernel)
      (by decide +kernel)
  · intro hkept
    exact List.any_eq_false.mp hrebiased n hkept htenth
  · intro hkept
    exact List.any_eq_false.mp hreweighted s hkept hone

end Engine
end Plexus
