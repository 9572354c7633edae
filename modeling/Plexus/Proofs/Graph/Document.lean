import Plexus.Graph.Document
import Plexus.Proofs.Attempt

/-!
# Documents of graphs

The document of a graph is read back as the graph, as long as every neuron has a known
activation tag.
-/

namespace Plexus

namespace Neuron

open Attempt

/-- A neuron whose activation tag is known can be made anew with another bias. -/
theorem make_eq_ok {n : Neuron} {f : Activation} (h : Activation.ofValue n.activation = .ok f)
    (bias : Float) :
    make n.id (.text n.kind.tag) (.real bias) n.activation = .ok { n with bias } := by
  cases hn : n.activation with
  | text s =>
      have hsome : (Activation.ofTag? s).isSome = true := by
        rw [hn, Activation.ofValue] at h
        cases hs : Activation.ofTag? s with
        | none =>
            rw [hs] at h
            cases h
        | some g => rfl
      simp only [make, Kind.ofValue_tag, Value.toFloat, hsome, if_true, ← hn]
      rfl
  | null | flag | int | real | nan | list | object =>
      rw [hn] at h
      cases h

theorem ofValue_toValue {n : Neuron} {f : Activation}
    (h : Activation.ofValue n.activation = .ok f) :
    ofValue n.toValue = .ok n :=
  make_eq_ok h n.bias

/-- A neuron that is read from a record has a known activation tag. -/
theorem known_of_ofValue {v : Value} {n : Neuron} (h : ofValue v = .ok n) :
    ∃ f, Activation.ofValue n.activation = .ok f := by
  rcases bind_eq_ok h with ⟨fs, -, h⟩
  rcases bind_eq_ok h with ⟨id, -, h⟩
  rcases bind_eq_ok h with ⟨kind, -, h⟩
  rcases bind_eq_ok h with ⟨bias, -, h⟩
  split at h
  · next tag htag =>
    split at h
    · next hsome =>
      rcases Option.isSome_iff_exists.mp hsome with ⟨f, hf⟩
      cases h
      refine ⟨f, ?_⟩
      rw [htag, Activation.ofValue, hf]
    · cases h
  · cases h

end Neuron

namespace Synapse

theorem ofValue_toValue (s : Synapse) : ofValue s.toValue = .ok s := rfl

end Synapse

namespace Document

open Attempt

theorem mapM_toValue {β : Type} {toValue : β → Value} {ofValue : Value → Except Fault β}
    {bs : List β} (h : ∀ b ∈ bs, ofValue (toValue b) = .ok b) :
    (bs.map toValue).mapM ofValue = .ok bs := by
  have hread : bs.mapM (fun b => ofValue (toValue b)) = .ok (bs.map id) := mapM_eq_ok h
  rw [List.map_id] at hread
  rw [List.mapM_map]
  exact hread

/-- Parsing the document of a graph gives the graph back. -/
theorem parse_build {ns : List Neuron} {ss : List Synapse}
    (hns : ∀ n ∈ ns, ∃ f, Activation.ofValue n.activation = .ok f) (version : Value) :
    parse (build ns ss version) = .ok (ns, ss) := by
  have harrays : arrays (build ns ss version) =
      .ok (ns.map Neuron.toValue, ss.map Synapse.toValue) := rfl
  have hneurons : (ns.map Neuron.toValue).mapM Neuron.ofValue = .ok ns := by
    apply mapM_toValue
    intro n hn
    rcases hns n hn with ⟨f, hf⟩
    exact Neuron.ofValue_toValue hf
  have hsynapses : (ss.map Synapse.toValue).mapM Synapse.ofValue = .ok ss :=
    mapM_toValue fun s _ => Synapse.ofValue_toValue s
  rw [parse, harrays]
  show ((ns.map Neuron.toValue).mapM Neuron.ofValue >>= fun neurons =>
    (ss.map Synapse.toValue).mapM Synapse.ofValue >>= fun synapses =>
      pure (neurons, synapses)) = _
  rw [hneurons, hsynapses]
  rfl

theorem known_of_parse {doc : Value} {ns : List Neuron} {ss : List Synapse}
    (h : parse doc = .ok (ns, ss)) {n : Neuron} (hn : n ∈ ns) :
    ∃ f, Activation.ofValue n.activation = .ok f := by
  rcases bind_eq_ok h with ⟨arrays, -, h⟩
  rcases bind_eq_ok h with ⟨neurons, hneurons, h⟩
  rcases bind_eq_ok h with ⟨synapses, -, h⟩
  cases h
  rcases exists_of_mem_mapM hneurons hn with ⟨v, -, hv⟩
  exact Neuron.known_of_ofValue hv

end Document
end Plexus
