import Mathlib.Data.List.Nodup
import Mathlib.Data.List.Perm.Basic
import Plexus.Proofs.Compiled.Simple

/-!
# Graphs that are stored in another order

Stores promise no order.  Where names tell the neurons apart and no two synapses are parallel, the
order in which a graph is read decides at which index a neuron is put, and nothing else: by their
names, the neurons and weights of two such compiled graphs agree.
-/

namespace Plexus
namespace Compiled

/-- A graph without parallel synapses between neurons of different names, in two orders. -/
structure Reordered (ns ns' : List Neuron) (ss ss' : List Synapse) : Prop where
  text : ∀ n ∈ ns, n.id.IsText
  nodup : (ns.map Neuron.id).Nodup
  ends : ∀ s ∈ ss, s.source.isScalar = true ∧ s.target.isScalar = true
  single : Single (ns.map Neuron.id) ss
  neurons : ns'.Perm ns
  synapses : ss'.Perm ss

/-- Two compiled graphs that agree by name, at whatever indices the names are. -/
structure Agree {α : Type} [Scalar α] (c c' : Compiled α) : Prop where
  size : c'.size = c.size
  ids : c'.ids.Perm c.ids
  neuron : ∀ id i, c.index.find? id = some i → ∃ j bias tag, c'.index.find? id = some j ∧
    c.biases[i]? = some bias ∧ c'.biases[j]? = some bias ∧
    c.activations[i]? = some tag ∧ c'.activations[j]? = some tag
  weight : ∀ u v, c'.weight u v = c.weight u v

namespace Reordered

variable {ns ns' : List Neuron} {ss ss' : List Synapse} (h : Reordered ns ns' ss ss')

include h

theorem ids : (ns'.map Neuron.id).Perm (ns.map Neuron.id) := h.neurons.map Neuron.id

theorem text' : ∀ n ∈ ns', n.id.IsText := fun n hn => h.text n (h.neurons.mem_iff.mp hn)

theorem nodup' : (ns'.map Neuron.id).Nodup := h.ids.nodup_iff.mpr h.nodup

theorem ends' : ∀ s ∈ ss', s.source.isScalar = true ∧ s.target.isScalar = true :=
  fun s hs => h.ends s (h.synapses.mem_iff.mp hs)

theorem single' : Single (ns'.map Neuron.id) ss' := by
  have hsymm : ∀ s d : Synapse,
      ¬(s.source ∈ ns.map Neuron.id ∧ s.target ∈ ns.map Neuron.id ∧ d.source = s.source ∧
        d.target = s.target) →
      ¬(d.source ∈ ns.map Neuron.id ∧ d.target ∈ ns.map Neuron.id ∧ s.source = d.source ∧
        s.target = d.target) := by
    rintro s d hne ⟨hsource, htarget, hsource', htarget'⟩
    rw [← hsource'] at hsource
    rw [← htarget'] at htarget
    exact hne ⟨hsource, htarget, hsource'.symm, htarget'.symm⟩
  have hpairs := (h.synapses.pairwise_iff (fun {s d} => hsymm s d)).mpr h.single
  apply hpairs.imp
  intro s d hne
  rw [h.ids.mem_iff, h.ids.mem_iff]
  exact hne

theorem length_eq : ns'.length = ns.length := h.neurons.length_eq

/-- A name that stands somewhere in one order stands somewhere in the other. -/
theorem exists_index {u : Value} {i : Nat} (hu : (ns.map Neuron.id)[i]? = some u) :
    ∃ j : Nat, (ns'.map Neuron.id)[j]? = some u :=
  List.mem_iff_getElem?.mp (h.ids.mem_iff.mpr (List.mem_of_getElem? hu))

/-- A name stands for the same neuron in both orders. -/
theorem neuron_eq {n n' : Neuron} {i j : Nat} (hn : ns[i]? = some n) (hn' : ns'[j]? = some n')
    (hid : n'.id = n.id) : n' = n :=
  List.inj_on_of_nodup_map h.nodup (h.neurons.mem_iff.mp (List.mem_of_getElem? hn'))
    (List.mem_of_getElem? hn) hid

/-- Between two names the same synapse counts in both orders. -/
theorem lastLeading_eq {u v : Value} {i j k l : Nat} (hu : (ns.map Neuron.id)[i]? = some u)
    (hv : (ns.map Neuron.id)[j]? = some v) (hu' : (ns'.map Neuron.id)[k]? = some u)
    (hv' : (ns'.map Neuron.id)[l]? = some v) :
    lastLeading (.ofIds (ns'.map Neuron.id)) ss' k l =
      lastLeading (.ofIds (ns.map Neuron.id)) ss i j := by
  apply Option.ext
  intro s
  rw [lastLeading_eq_some_iff (fun _ => text_of_mem_ids h.text') h.nodup' h.single' hu' hv',
    lastLeading_eq_some_iff (fun _ => text_of_mem_ids h.text) h.nodup h.single hu hv,
    h.synapses.mem_iff]

variable {α : Type} [Scalar α]

theorem find?_iff {id : Value} {i : Nat} :
    (flatten ns ss : Compiled α).index.find? id = some i ↔ (ns.map Neuron.id)[i]? = some id :=
  IndexTable.find?_ofIds_iff_getElem? (fun _ => text_of_mem_ids h.text) h.nodup

theorem find?_iff' {id : Value} {i : Nat} :
    (flatten ns' ss' : Compiled α).index.find? id = some i ↔ (ns'.map Neuron.id)[i]? = some id :=
  IndexTable.find?_ofIds_iff_getElem? (fun _ => text_of_mem_ids h.text') h.nodup'

/-- The weight between two names is the same in both orders. -/
theorem cell_eq {u v : Value} {i j k l : Nat} (hu : (ns.map Neuron.id)[i]? = some u)
    (hv : (ns.map Neuron.id)[j]? = some v) (hu' : (ns'.map Neuron.id)[k]? = some u)
    (hv' : (ns'.map Neuron.id)[l]? = some v) :
    (flatten ns' ss' : Compiled α).weights[l * ns'.length + k]? =
      (flatten ns ss : Compiled α).weights[j * ns.length + i]? := by
  have hlt {xs : List Neuron} {m : Nat} {w : Value} (hw : (xs.map Neuron.id)[m]? = some w) :
      m < xs.length := by
    rw [← List.length_map (f := Neuron.id)]
    exact (List.getElem?_eq_some_iff.mp hw).1
  have hbounded := bounded_of_text fun _ => text_of_mem_ids h.text
  have hbounded' := bounded_of_text fun _ => text_of_mem_ids h.text'
  rw [List.length_map] at hbounded hbounded'
  rw [getElem?_weights_flatten hbounded (hlt hu) (hlt hv),
    getElem?_weights_flatten hbounded' (hlt hu') (hlt hv'), h.lastLeading_eq hu hv hu' hv']

/-- A value names a neuron in both graphs or in neither. -/
theorem indexOf_cases (u : Value) :
    (∃ f, (flatten ns ss : Compiled α).indexOf u = .error f ∧
      (flatten ns' ss' : Compiled α).indexOf u = .error f) ∨
    ∃ i k, (flatten ns ss : Compiled α).indexOf u = .ok i ∧
      (flatten ns' ss' : Compiled α).indexOf u = .ok k ∧
      (ns.map Neuron.id)[i]? = some u ∧ (ns'.map Neuron.id)[k]? = some u := by
  cases hscalar : u.isScalar with
  | false => exact Or.inl ⟨.mistyped, by simp [indexOf, hscalar], by simp [indexOf, hscalar]⟩
  | true =>
      cases hfound : (flatten ns ss : Compiled α).index.find? u with
      | some i =>
          have hu := h.find?_iff.mp hfound
          rcases h.exists_index hu with ⟨k, hk⟩
          have hfound' : (flatten ns' ss' : Compiled α).index.find? u = some k :=
            h.find?_iff'.mpr hk
          exact Or.inr ⟨i, k, by simp [indexOf, hscalar, hfound],
            by simp [indexOf, hscalar, hfound'], hu, hk⟩
      | none =>
          have hfound' : (flatten ns' ss' : Compiled α).index.find? u = none := by
            rw [Option.eq_none_iff_forall_ne_some]
            intro k hk
            have hmem := h.ids.mem_iff.mp (List.mem_of_getElem? (h.find?_iff'.mp hk))
            rcases List.mem_iff_getElem?.mp hmem with ⟨i, hi⟩
            rw [h.find?_iff.mpr hi] at hfound
            cases hfound
          exact Or.inl ⟨.missingKey u, by simp [indexOf, hscalar, hfound],
            by simp [indexOf, hscalar, hfound']⟩

theorem weight_eq (u v : Value) :
    (flatten ns' ss' : Compiled α).weight u v = (flatten ns ss : Compiled α).weight u v := by
  unfold weight
  rcases h.indexOf_cases (α := α) u with ⟨f, hu, hu'⟩ | ⟨i, k, hu, hu', hi, hk⟩
  · rw [hu, hu']
    rfl
  · rcases h.indexOf_cases (α := α) v with ⟨f, hv, hv'⟩ | ⟨j, l, hv, hv', hj, hl⟩
    · rw [hu, hu', hv, hv']
      rfl
    · rw [hu, hu', hv, hv']
      show Except.ok _ = Except.ok _
      rw [Scalar.cell, Scalar.cell]
      exact congrArg (fun x => Except.ok (Option.getD x Scalar.zero)) (h.cell_eq hi hj hk hl)

theorem neuron_agrees {id : Value} {i : Nat}
    (hfound : (flatten ns ss : Compiled α).index.find? id = some i) :
    ∃ j n, (flatten ns' ss' : Compiled α).index.find? id = some j ∧ ns[i]? = some n ∧
      ns'[j]? = some n := by
  have hid := h.find?_iff.mp hfound
  rcases h.exists_index hid with ⟨j, hj⟩
  have hfound' : (flatten ns' ss' : Compiled α).index.find? id = some j := h.find?_iff'.mpr hj
  rw [List.getElem?_map, Option.map_eq_some_iff] at hid hj
  rcases hid with ⟨n, hn, hnid⟩
  rcases hj with ⟨n', hn', hnid'⟩
  rw [h.neuron_eq hn hn' (hnid'.trans hnid.symm)] at hn'
  exact ⟨j, n, hfound', hn, hn'⟩

theorem agree : Agree (flatten ns ss : Compiled α) (flatten ns' ss') where
  size := h.length_eq
  ids := h.ids
  neuron := by
    intro id i hfound
    rcases h.neuron_agrees hfound with ⟨j, n, hfound', hn, hn'⟩
    refine ⟨j, Scalar.ofFloat n.bias, n.activation, hfound', ?_, ?_, ?_, ?_⟩
    all_goals simp [flatten, hn, hn']
  weight := h.weight_eq

theorem compile_eq : compile ns ss = .ok (flatten ns ss : Compiled α) ∧
    compile ns' ss' = .ok (flatten ns' ss' : Compiled α) :=
  ⟨compile_eq_ok h.text h.ends, compile_eq_ok h.text' h.ends'⟩

end Reordered
end Compiled
end Plexus
