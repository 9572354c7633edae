import Plexus.Proofs.Graph.Document
import Plexus.Proofs.Json.Ascii

/-!
# Files of graphs

The document of a graph is read back from the file that it is written to.  The identifiers may be
any texts of plain characters, and the biases and weights any doubles: each is written with the
digits that read back as it is, and what is not a number or not finite by its name.
-/

namespace Plexus

/-- A text of plain characters as a value. -/
def Value.IsPlainText (v : Value) : Prop := ∃ s, v = .text (Text.ofPlain s)

theorem Value.portable_of_isPlainText {v : Value} (h : v.IsPlainText) : v.Portable := by
  rcases h with ⟨s, rfl⟩
  exact ⟨s, rfl⟩

/-- An ASCII text is one of plain characters. -/
theorem Text.IsPlainText.of_isAscii {s : String} (h : IsAscii s.toList) : Text.IsPlainText s :=
  ⟨s, (IsAscii.ofPlain_eq h).symm⟩

namespace Activation

theorem isAscii_tag (f : Activation) : IsAscii f.tag.toList := by
  cases f <;> exact IsAscii.of_all rfl

theorem eq_tag_of_ofValue {v : Value} {f : Activation} (h : ofValue v = .ok f) :
    v = .text f.tag := by
  cases v with
  | text s =>
      rw [ofValue] at h
      cases hs : ofTag? s with
      | none =>
          rw [hs] at h
          cases h
      | some g =>
          rw [hs] at h
          cases h
          have htag := List.find?_some hs
          rw [beq_iff_eq.mp htag]
  | null | flag | int | real | nan | list | object => cases h

end Activation

theorem Kind.isAscii_tag (k : Kind) : IsAscii k.tag.toList := by
  cases k <;> exact IsAscii.of_all rfl

/-!
## Records
-/

/-- A neuron with a text of plain characters as its identifier and a known activation tag. -/
structure Neuron.Plain (n : Neuron) : Prop where
  id : n.id.IsPlainText
  activation : ∃ f, Activation.ofValue n.activation = .ok f

/-- A synapse with texts of plain characters as its identifier and ends. -/
structure Synapse.Plain (s : Synapse) : Prop where
  id : s.id.IsPlainText
  source : s.source.IsPlainText
  target : s.target.IsPlainText

theorem Neuron.Plain.portable {n : Neuron} (h : n.Plain) : n.toValue.Portable := by
  rcases h.activation with ⟨f, hf⟩
  rw [toValue, Activation.eq_tag_of_ofValue hf]
  exact ⟨show ["id", "type", "bias", "activation"].Nodup by decide, .of_isAscii (.of_all rfl),
    Value.portable_of_isPlainText h.id, .of_isAscii (.of_all rfl),
    .of_isAscii (Kind.isAscii_tag _), .of_isAscii (.of_all rfl), trivial, .of_isAscii (.of_all rfl),
    .of_isAscii (Activation.isAscii_tag f), trivial⟩

theorem Synapse.Plain.portable {s : Synapse} (h : s.Plain) : s.toValue.Portable :=
  ⟨show ["id", "from_id", "to_id", "weight"].Nodup by decide, .of_isAscii (.of_all rfl),
    Value.portable_of_isPlainText h.id, .of_isAscii (.of_all rfl),
    Value.portable_of_isPlainText h.source, .of_isAscii (.of_all rfl),
    Value.portable_of_isPlainText h.target, .of_isAscii (.of_all rfl), trivial, trivial⟩

/-!
## Documents
-/

namespace Document

theorem portable_items {β : Type} {toValue : β → Value} {bs : List β}
    (h : ∀ b ∈ bs, (toValue b).Portable) : Value.PortableItems (bs.map toValue) := by
  induction bs with
  | nil => trivial
  | cons b bs ih =>
      rcases List.forall_mem_cons.mp h with ⟨hb, hbs⟩
      exact ⟨hb, ih hbs⟩

theorem depth_items_le {β : Type} {toValue : β → Value} {bs : List β} {limit : Nat}
    (h : ∀ b ∈ bs, (toValue b).depth ≤ limit) :
    Value.depthOfItems (bs.map toValue) ≤ limit := by
  induction bs with
  | nil => exact Nat.zero_le _
  | cons b bs ih =>
      rcases List.forall_mem_cons.mp h with ⟨hb, hbs⟩
      exact max_le hb (ih hbs)

variable {ns : List Neuron} {ss : List Synapse} {version : String}

theorem portable_build (hns : ∀ n ∈ ns, n.Plain) (hss : ∀ s ∈ ss, s.Plain)
    (hversion : Text.IsPlainText version) : (build ns ss (.text version)).Portable := by
  exact ⟨show ["version", "neurons", "synapses"].Nodup by decide,
    .of_isAscii (.of_all rfl), hversion,
    .of_isAscii (.of_all rfl), portable_items fun n hn => (hns n hn).portable,
    .of_isAscii (.of_all rfl), portable_items fun s hs => (hss s hs).portable, trivial⟩

theorem depth_build_le (hns : ∀ n ∈ ns, n.Plain) (hss : ∀ s ∈ ss, s.Plain) :
    (build ns ss (.text version)).depth ≤ 3 := by
  have hneurons : Value.depthOfItems (ns.map Neuron.toValue) ≤ 1 := by
    refine depth_items_le fun n hn => ?_
    rcases (hns n hn).id with ⟨t, ht⟩
    rcases (hns n hn).activation with ⟨f, hf⟩
    rw [Neuron.toValue, ht, Activation.eq_tag_of_ofValue hf]
    exact le_rfl
  have hsynapses : Value.depthOfItems (ss.map Synapse.toValue) ≤ 1 := by
    refine depth_items_le fun s hs => ?_
    rcases (hss s hs).id with ⟨t, ht⟩
    rcases (hss s hs).source with ⟨u, hu⟩
    rcases (hss s hs).target with ⟨v, hv⟩
    rw [Synapse.toValue, ht, hu, hv]
    exact le_rfl
  simp only [build, Value.depth, Value.depthOfFields]
  omega

/-- A file is read as the text that was written to it. -/
theorem ofBytes_toUTF8 {s : String} (h : IsAscii s.toList) : ofBytes s.toUTF8 = ofText s := by
  have hdecode : String.fromUTF8? s.toUTF8 = some s := dif_pos s.isValidUTF8
  rw [ofBytes, hdecode]
  simp only [IsAscii.ofPlain_eq h]

/--
The document of a graph is read back from its file, and the graph from the document: every
neuron and synapse as it was, in order, whatever its bias or weight.
-/
theorem ofBytes_text_build (hns : ∀ n ∈ ns, n.Plain) (hss : ∀ s ∈ ss, s.Plain)
    (hversion : Text.IsPlainText version) :
    ofBytes (text (build ns ss (.text version))).toUTF8 = .ok (build ns ss (.text version)) ∧
      parse (build ns ss (.text version)) = .ok (ns, ss) := by
  have hdepth : (build ns ss (.text version)).depth ≤ 3 := depth_build_le hns hss
  have hread := Json.read_text (portable_build hns hss hversion)
    (hdepth.trans (by decide))
  have hascii := IsAscii.text (build ns ss (.text version))
  refine ⟨?_, parse_build (fun n hn => (hns n hn).activation) _⟩
  rw [text, ofBytes_toUTF8 hascii, ofText, hascii.hasHalf_eq_false, hread]
  have hvalid : validate (build ns ss (.text version)) = .ok () := rfl
  have hshallow : ¬maxDepth < (build ns ss (.text version)).depth :=
    Nat.not_lt.mpr (hdepth.trans (by decide))
  simp only [bind, Except.bind, hvalid, if_neg hshallow]
  rfl

/-- Neurons whose identifiers need escapes of all kinds, with biases that have no digits. -/
def escapedNeurons : List Neuron := [
  ⟨.text (Text.ofPlain "\"\\\n\x01\x7f"), .input, 0.0 / 0.0, .text "tanh"⟩,
  ⟨.text (Text.ofPlain "é😀"), .offloaded, -1.0 / 0.0, .text "linear"⟩]

/-- A synapse between them. -/
def escapedSynapses : List Synapse := [
  ⟨.text (Text.ofPlain "/"), .text (Text.ofPlain "\"\\\n\x01\x7f"), .text (Text.ofPlain "é😀"), 0.1⟩]

/-- Names that need escapes are read back. -/
theorem ofBytes_text_build_escaped :
    ofBytes (text (build escapedNeurons escapedSynapses
        (.text (Text.ofPlain "2.0")))).toUTF8 =
      .ok (build escapedNeurons escapedSynapses (.text (Text.ofPlain "2.0"))) ∧
    parse (build escapedNeurons escapedSynapses (.text (Text.ofPlain "2.0"))) =
      .ok (escapedNeurons, escapedSynapses) := by
  refine ofBytes_text_build ?_ ?_ ⟨"2.0", rfl⟩
  · refine List.forall_mem_cons.mpr ⟨⟨⟨_, rfl⟩, .tanh, rfl⟩, List.forall_mem_singleton.mpr ?_⟩
    exact ⟨⟨_, rfl⟩, .linear, rfl⟩
  · exact List.forall_mem_singleton.mpr ⟨⟨_, rfl⟩, ⟨_, rfl⟩, ⟨_, rfl⟩⟩

end Document

end Plexus
