import Mathlib
import Plexus.Proofs.Store.Equivalence
import Plexus.Proofs.Store.Keys

/-!
# What an update leaves alone

Stores update in three ways: by putting an entry in the place of the one with its identifier, by
overwriting a row, and by removing and adding.  None of them touches an entry with another
identifier, and the other entries stay in their order.  Where the entry that is replaced ends up,
and what becomes of an entry that is not there, differs.
-/

namespace Plexus

open Attempt Parametric
open Value (IsText)

/-- Entries that are read from a row with the identifier that is the row's key. -/
class KeyedRows (ε : Type) [Tabular ε] : Prop where
  id_of_decode {row : Tabular.Row ε} {e : ε} :
    Tabular.decode row = .ok e → Identified.id e = textValue (Tabular.key row)

instance : KeyedRows Neuron where
  id_of_decode h := Neuron.id_of_make h

instance : KeyedRows Synapse where
  id_of_decode h := by
    rcases bind_eq_ok h with ⟨_, -, h⟩
    cases h
    rfl

/-!
## Lists of entries
-/

section Lists

variable {ε : Type} [Tabular ε] {es : List ε} {d e : ε}

/-- The entries of a list that have another identifier than an entry. -/
def others (e : ε) (es : List ε) : List ε :=
  es.filter fun d => !(Identified.id d).same (Identified.id e)

theorem others_append (e : ε) (es ds : List ε) : others e (es ++ ds) = others e es ++ others e ds :=
  List.filter_append ..

theorem others_others (e : ε) (es : List ε) : others e (others e es) = others e es := by
  rw [others, others, List.filter_filter]
  simp only [Bool.and_self]

theorem others_singleton (hid : Identified.id d = Identified.id e) (he : (Identified.id e).IsText) :
    others e [d] = [] := by
  have hself := (Value.idClass_isText.isKey _ he).2
  rw [others, List.filter_cons, hid, hself]
  rfl

theorem others_of_absent (hes : ∀ d ∈ es, (Identified.id d).IsText)
    (h : Identified.id e ∉ es.map Identified.id) :
    others e es = es := by
  rw [others, List.filter_eq_self]
  intro d hd
  rw [Bool.not_eq_true', ← Bool.not_eq_true]
  intro hsame
  apply h
  rw [Value.eq_of_text_same (hes d hd) hsame]
  exact List.mem_map_of_mem hd

/-- An entry that takes the place of one with its identifier leaves the other entries alone. -/
theorem others_applied_update (hid : Identified.id d = Identified.id e)
    (he : (Identified.id e).IsText) :
    others e ((Write.update d).applied es) = others e es := by
  rw [Write.applied, hid]
  induction es with
  | nil => rfl
  | cons c rest ih =>
      rw [List.map_cons]
      split
      · next hsame =>
        have hc : others e (c :: rest) = others e rest := by
          rw [others, List.filter_cons, hsame]
          rfl
        have hd := others_append e [d] (rest.map fun c =>
          if (Identified.id c).same (Identified.id e) then d else c)
        rw [others_singleton hid he] at hd
        rw [hc, ← ih]
        exact hd
      · next happart =>
        rw [others, List.filter_cons, others, List.filter_cons, eq_false_of_ne_true happart]
        exact congrArg (c :: ·) ih

theorem mem_applied_update (hes : ∀ d ∈ es, (Identified.id d).IsText)
    (hid : Identified.id d = Identified.id e) (h : Identified.id e ∈ es.map Identified.id) :
    d ∈ (Write.update d).applied es := by
  rcases List.mem_map.mp h with ⟨c, hc, hce⟩
  refine List.mem_map.mpr ⟨c, hc, if_pos ?_⟩
  rw [hid, ← hce]
  exact (Value.idClass_isText.isKey _ (hes c hc)).2

end Lists

/-!
## Updates of each kind of store
-/

section Stores

variable {ε : Type} [Tabular ε] {es : List ε} {d e : ε}

theorem KeyedStore.eq_ofList {s : KeyedStore ε} (h : ∀ p ∈ s.entries, p.1 = Identified.id p.2) :
    s = ofList s.toList := by
  rcases s with ⟨entries⟩
  rw [ofList, toList, List.map_map]
  congr 1
  refine Eq.trans (List.map_id entries).symm (List.map_congr_left fun p hp => ?_)
  exact Prod.ext (h p hp) rfl

theorem KeyedStore.update_of_absent (hes : ∀ d ∈ es, (Identified.id d).IsText)
    (he : (Identified.id e).IsText) (h : Identified.id e ∉ es.map Identified.id) :
    (ofList es).update e = .ok (ofList (es ++ [e])) := by
  have happart : ∀ p ∈ (ofList es).entries, p.1.same (Identified.id e) = false := by
    intro p hp
    rcases List.mem_map.mp hp with ⟨d, hd, rfl⟩
    rw [← Bool.not_eq_true]
    intro hsame
    apply h
    rw [Value.eq_of_text_same (hes d hd) hsame]
    exact List.mem_map_of_mem hd
  rw [update, (Value.idClass_isText.isKey _ he).1, put_of_new happart]
  simp [ofList]

/-- A list store drops the entry with an identifier and adds the new one at the end. -/
theorem PlainStore.entries_update (he : (Identified.id e).IsText) :
    (update ⟨es⟩ e).entries = others e es ++ [e] := by
  rcases he with ⟨s, hs⟩
  show es.filter _ ++ [e] = _
  rw [others]
  congr 1
  apply List.filter_congr
  intro d _
  rw [hs]
  cases Identified.id d <;> simp [Value.equal, Value.same, Value.sameNumber, Value.number?]

section Rows

variable [KeyedRows ε] {r row : Tabular.Row ε}

theorem TableStore.hasKey_of_decode {k : Option String} (hr : Tabular.decode r = .ok d)
    (hk : textValue k = Identified.id e) (he : (Identified.id e).IsText) :
    hasKey r k = (Identified.id d).same (Identified.id e) := by
  rcases he with ⟨s, hs⟩
  rw [KeyedRows.id_of_decode hr, hs]
  rw [hs] at hk
  cases k with
  | none => cases hk
  | some k =>
      cases hk
      cases hkey : Tabular.key r with
      | none => simp [hasKey, hkey, textValue, Value.same]
      | some k' =>
          rw [hasKey, hkey, textValue, Value.same_text_text]
          rfl

theorem TableStore.getAll_overwritten {rows : List (Tabular.Row ε)}
    (hget : getAll ⟨rows⟩ = .ok es) (hrow : Tabular.decode row = .ok d)
    (hd : (Identified.id d).IsText) :
    getAll ⟨rows.map fun r => if hasKey r (Tabular.key row) then row else r⟩ =
      .ok ((Write.update d).applied es) := by
  rw [getAll] at hget ⊢
  induction rows generalizing es with
  | nil =>
      cases hget
      rfl
  | cons r rest ih =>
      rw [List.mapM_cons] at hget
      rcases bind_eq_ok hget with ⟨c, hc, hget⟩
      rcases bind_eq_ok hget with ⟨cs, hcs, hget⟩
      cases hget
      have hhead : Tabular.decode (if hasKey r (Tabular.key row) then row else r) =
          .ok (if (Identified.id c).same (Identified.id d) then d else c) := by
        rw [hasKey_of_decode hc (KeyedRows.id_of_decode hrow).symm hd]
        split
        · exact hrow
        · exact hc
      rw [List.map_cons, List.mapM_cons, hhead, ih hcs]
      rfl

/-- Whether a table has a row with the key of an entry is told by what is read from it. -/
theorem TableStore.any_hasKey_iff {rows : List (Tabular.Row ε)} {k : Option String}
    (hget : getAll ⟨rows⟩ = .ok es) (hes : ∀ d ∈ es, (Identified.id d).IsText)
    (hk : textValue k = Identified.id e) (he : (Identified.id e).IsText) :
    (rows.any fun r => hasKey r k) = true ↔ Identified.id e ∈ es.map Identified.id := by
  rw [getAll] at hget
  induction rows generalizing es with
  | nil =>
      cases hget
      simp
  | cons r rest ih =>
      rw [List.mapM_cons] at hget
      rcases bind_eq_ok hget with ⟨c, hc, hget⟩
      rcases bind_eq_ok hget with ⟨cs, hcs, hget⟩
      cases hget
      rw [List.any_cons, Bool.or_eq_true, hasKey_of_decode hc hk he,
        ih hcs fun d hd => hes d (List.mem_cons_of_mem c hd),
        Value.same_iff_eq (hes c List.mem_cons_self) he, List.map_cons, List.mem_cons, eq_comm]

end Rows
end Stores

/-!
## Updates of any store
-/

namespace Store

variable {ε : Type} [Tabular ε] [Parametric ε]

/-- Whether a store keeps its entries as rows of a table. -/
def isTable : Store ε → Bool
  | .table _ => true
  | .keyed _ | .plain _ => false

/-- What a store lists, `es`, and what it lists after an update by an entry, `ds`. -/
structure Replaces (s : Store ε) (e : ε) (es ds : List ε) : Prop where
  /-- All other entries stay, in their order. -/
  others : others e ds = others e es
  /-- The entry that is replaced keeps its place, or moves to the end of a list store. -/
  order : Identified.id e ∈ es.map Identified.id →
    ds.map Identified.id = s.reordered (es.map Identified.id) [Identified.id e]
  /-- An entry that is not there leaves the list as it is, or is added to it. -/
  absent : Identified.id e ∉ es.map Identified.id →
    ds = es ∨ s.isTable = false ∧ ds = es ++ [e]
  /-- An update that is carried out puts the entry where its identifier was. -/
  replaced : (update e).succeeds s = true → Identified.id e ∈ es.map Identified.id →
    ∃ d ∈ ds, d = e ∨ Alike e d

variable {s : Store ε} {es : List ε} {d e : ε}

theorem replaces_of_applied (hs : s.isKeyed = true) (hes : Distinct IsText es)
    (hid : Identified.id d = Identified.id e) (he : (Identified.id e).IsText)
    (h : Identified.id e ∈ es.map Identified.id) (hd : d = e ∨ Alike e d) :
    s.Replaces e es ((Write.update d).applied es) where
  others := others_applied_update hid he
  order _ := by
    rw [Write.map_id_applied_update hes.named, reordered, if_pos hs]
  absent habsent := absurd h habsent
  replaced _ _ := ⟨d, mem_applied_update hes.named hid h, hd⟩

theorem replaces_self (hs : s.isKeyed = true)
    (h : (update e).succeeds s = true → Identified.id e ∉ es.map Identified.id) :
    s.Replaces e es es where
  others := rfl
  order _ := by rw [reordered, if_pos hs]
  absent _ := Or.inl rfl
  replaced hsucceeds hmem := absurd hmem (h hsucceeds)

/-- A store in memory puts an entry in the place of the one with its identifier, or adds it. -/
theorem replaces_update_keyed {t : KeyedStore ε} (ht : (Store.keyed t).Tidy)
    (hget : (Store.keyed t).getAll = .ok es) (hes : Distinct IsText es) (he : Named e) :
    ∃ ds, ((update e).after (.keyed t)).getAll = .ok ds ∧ (Store.keyed t).Replaces e es ds := by
  have hid : (Identified.id e).IsText := id_isText he
  have hstore := KeyedStore.eq_ofList ht
  rw [show t.toList = es from Except.ok.inj hget] at hstore
  subst hstore
  by_cases hmem : Identified.id e ∈ es.map Identified.id
  · rcases List.mem_map.mp hmem with ⟨c, hc, hce⟩
    have hupdate : (update e).outcome (.keyed (.ofList es)) =
        (.ok (), .keyed (.ofList ((Write.update e).applied es))) :=
      Write.outcome_keyed (w := .update e) hes he ⟨es, hget, c, hc, hce⟩
    refine ⟨(Write.update e).applied es, ?_,
      replaces_of_applied rfl hes rfl hid hmem (Or.inl rfl)⟩
    rw [after_of_outcome hupdate, getAll, KeyedStore.toList_ofList]
  · have hupdate : updated e (.keyed (.ofList es)) = .ok (.keyed (.ofList (es ++ [e]))) := by
      rw [updated, KeyedStore.update_of_absent hes.named hid hmem]
      rfl
    refine ⟨es ++ [e], ?_, ?_, ?_, ?_, ?_⟩
    · rw [after, update, outcome_step, hupdate]
      exact congrArg Except.ok (KeyedStore.toList_ofList _)
    · rw [others_append, others_singleton rfl hid, List.append_nil]
    · exact fun h => absurd h hmem
    · exact fun _ => Or.inr ⟨rfl, rfl⟩
    · exact fun _ h => absurd h hmem

/-- A list store adds the entry at its end, whether or not it has dropped one. -/
theorem replaces_update_plain {t : PlainStore ε} (hget : (Store.plain t).getAll = .ok es)
    (hes : Distinct IsText es) (he : Named e) :
    ∃ ds, ((update e).after (.plain t)).getAll = .ok ds ∧ (Store.plain t).Replaces e es ds := by
  have hid : (Identified.id e).IsText := id_isText he
  rcases t with ⟨entries⟩
  cases hget
  refine ⟨others e entries ++ [e], congrArg Except.ok (PlainStore.entries_update hid),
    ?_, ?_, ?_, ?_⟩
  · rw [others_append, others_others, others_singleton rfl hid, List.append_nil]
  · intro hmem
    have hkeys := (keys_updated (s := .plain ⟨entries⟩) hid hmem rfl).2
    rw [keys, PlainStore.entries_update hid] at hkeys
    exact hkeys
  · intro habsent
    rw [others_of_absent hes.named habsent]
    exact Or.inr ⟨rfl, rfl⟩
  · exact fun _ _ => ⟨e, List.mem_append_right _ List.mem_cons_self, Or.inl rfl⟩

/-- A table writes over the row with the key of an entry, and does nothing if there is none. -/
theorem replaces_update_table [KeyedRows ε] {t : TableStore ε}
    (hget : (Store.table t).getAll = .ok es) (hes : Distinct IsText es) (he : Named e)
    (hnumber : Identified.id e ∈ es.map Identified.id → (parameter e).isNaN = false) :
    ∃ ds, ((update e).after (.table t)).getAll = .ok ds ∧ (Store.table t).Replaces e es ds := by
  have hid : (Identified.id e).IsText := id_isText he
  rcases t with ⟨rows⟩
  cases hencode : Tabular.encode e with
  | error f =>
      have hupdate : (update e).outcome (.table ⟨rows⟩) = (.error f, .table ⟨rows⟩) := by
        rw [update, outcome_step, updated, TableStore.update, revise_eq_encode he, hencode]
        rfl
      refine ⟨es, ?_, replaces_self rfl fun h => ?_⟩
      · rw [after_of_outcome hupdate]
        exact hget
      · rw [not_succeeds_of_error hupdate] at h
        cases h
  | ok row =>
      have hany := TableStore.any_hasKey_iff hget hes.named (key_encode he hencode) hid
      by_cases hmem : Identified.id e ∈ es.map Identified.id
      · rcases decode_of_number he hencode (hnumber hmem) with ⟨d, hd, halike⟩
        have hde : Identified.id d = Identified.id e := id_of_alike halike
        refine ⟨(Write.update d).applied es, ?_,
          replaces_of_applied rfl hes hde hid hmem (Or.inr halike)⟩
        have hupdate : updated e (.table ⟨rows⟩) = .ok (.table
            ⟨rows.map fun r => if TableStore.hasKey r (Tabular.key row) then row else r⟩) := by
          rw [updated, TableStore.update, revise_eq_encode he, hencode]
          simp only [bind, Except.bind, hany.mpr hmem, missing_encode he hencode]
          rfl
        rw [after, update, outcome_step, hupdate]
        exact TableStore.getAll_overwritten hget hd (hde ▸ hid)
      · have hupdate : updated e (.table ⟨rows⟩) = .ok (.table ⟨rows⟩) := by
          rw [updated, TableStore.update, revise_eq_encode he, hencode]
          simp only [bind, Except.bind, eq_false_of_ne_true fun h => hmem (hany.mp h)]
          rfl
        refine ⟨es, ?_, replaces_self rfl fun _ => hmem⟩
        rw [after, update, outcome_step, hupdate]
        exact hget

theorem succeeds_update (he : Named e) (h : s.isTable = true → Encodable e) :
    (update e).succeeds s = true := by
  refine succeeds_of_ok (b := ()) ?_
  rw [update, outcome_step]
  cases s with
  | keyed t =>
      rw [updated, KeyedStore.update, (Value.idClass_isText.isKey _ (id_isText he)).1]
      rfl
  | table t =>
      rcases exists_encode he (h rfl) with ⟨row, hrow⟩
      rw [updated, TableStore.update, revise_eq_encode he, hrow]
      simp only [bind, Except.bind, missing_encode he hrow]
      cases t.rows.any fun r => TableStore.hasKey r (Tabular.key row) <;> rfl
  | plain t => rfl

theorem replaces_update [KeyedRows ε] (hs : s.Tidy) (hget : s.getAll = .ok es)
    (hes : Distinct IsText es) (he : Named e)
    (hnumber : s.isTable = true → Identified.id e ∈ es.map Identified.id →
      (parameter e).isNaN = false) :
    ∃ ds, ((update e).after s).getAll = .ok ds ∧ s.Replaces e es ds := by
  cases s with
  | keyed t => exact replaces_update_keyed hs hget hes he
  | table t => exact replaces_update_table hget hes he (hnumber rfl)
  | plain t => exact replaces_update_plain hget hes he

end Store

/--
An update of a neuron or of a synapse touches no other entry and leaves the others in their
order.  An entry that is there is replaced: in its place in memory and in a table, at the end of
a list store.
-/
theorem update_replaces_one :
    (∀ (s : Store Neuron) (ns : List Neuron) (n : Neuron),
      s.Tidy → s.getAll = .ok ns → Distinct IsText ns → n.Named →
      (s.isTable = true → n.id ∈ ns.map Neuron.id → n.bias.isNaN = false) →
        ((s.isTable = true → n.id.IsPlain) → (Store.update n).succeeds s = true) ∧
        ∃ ds, ((Store.update n).after s).getAll = .ok ds ∧ s.Replaces n ns ds) ∧
    (∀ (s : Store Synapse) (ss : List Synapse) (y : Synapse),
      s.Tidy → s.getAll = .ok ss → Distinct IsText ss → y.Named →
      (s.isTable = true → y.id ∈ ss.map Synapse.id → y.weight.isNaN = false) →
        ((s.isTable = true → y.id.IsPlain ∧ y.source.IsPlain ∧ y.target.IsPlain) →
          (Store.update y).succeeds s = true) ∧
        ∃ ds, ((Store.update y).after s).getAll = .ok ds ∧ s.Replaces y ss ds) := by
  constructor
  · intro s ns n hs hget hns hn hnumber
    exact ⟨Store.succeeds_update hn, Store.replaces_update hs hget hns hn hnumber⟩
  · intro s ss y hs hget hss hy hnumber
    exact ⟨Store.succeeds_update hy, Store.replaces_update hs hget hss hy hnumber⟩

/-- A hidden neuron with some identifier and bias. -/
def hiddenNeuron (id : String) (bias : Float) : Neuron := ⟨.text id, .hidden, bias, .text "tanh"⟩

theorem hiddenNeuron_named (id : String) (bias : Float) : (hiddenNeuron id bias).Named :=
  ⟨⟨_, rfl⟩, .tanh, rfl⟩

/-- A list store of two neurons. -/
def listedPair : Store Neuron := .plain ⟨[hiddenNeuron "a" 0.5, hiddenNeuron "b" 0.0]⟩

/-- A synapse that leads back. -/
def backward : Synapse := ⟨.text "s", .text "b", .text "a", 2.0⟩

/-- A table of two synapses, of which the first has the identifier of `backward`. -/
def tabledPair : Store Synapse :=
  .table ⟨[⟨some "s", some "a", some "b", some 1.0⟩, ⟨some "t", some "a", some "b", some 0.5⟩]⟩

/-- The first neuron of a list store and the first synapse of a table are replaced. -/
theorem update_replaces_one_first :
    (∃ ds, ((Store.update (hiddenNeuron "a" (0.0 / 0.0))).after listedPair).getAll = .ok ds ∧
      listedPair.Replaces (hiddenNeuron "a" (0.0 / 0.0))
        [hiddenNeuron "a" 0.5, hiddenNeuron "b" 0.0] ds) ∧
    ∃ ds, ((Store.update backward).after tabledPair).getAll = .ok ds ∧
      tabledPair.Replaces backward
        [⟨.text "s", .text "a", .text "b", 1.0⟩, ⟨.text "t", .text "a", .text "b", 0.5⟩] ds := by
  constructor
  · refine (update_replaces_one.1 listedPair _ _ trivial rfl (by decide)
      (hiddenNeuron_named _ _) ?_).2
    exact fun h => absurd h Bool.false_ne_true
  · refine (update_replaces_one.2 tabledPair _ _ trivial rfl (by decide)
      ⟨⟨_, rfl⟩, ⟨_, rfl⟩, ⟨_, rfl⟩⟩ fun _ _ => ?_).2
    decide +kernel

/--
A list store moves what it updates to the end, and a store in memory adds an entry that it does
not find.
-/
theorem update_changes_ids :
    (∃ ns ds, listedPair.getAll = .ok ns ∧ Distinct IsText ns ∧
      ((Store.update (hiddenNeuron "a" 1.0)).after listedPair).getAll = .ok ds ∧
      ns.map Neuron.id = [.text "a", .text "b"] ∧ ds.map Neuron.id = [.text "b", .text "a"]) ∧
    ∃ ns ds, (Store.keyed (.ofList [hiddenNeuron "a" 0.5])).getAll = .ok ns ∧ Distinct IsText ns ∧
      ((Store.update (hiddenNeuron "b" 1.0)).after
        (.keyed (.ofList [hiddenNeuron "a" 0.5]))).getAll = .ok ds ∧
      ns.map Neuron.id = [.text "a"] ∧ ds.map Neuron.id = [.text "a", .text "b"] := by
  constructor
  · refine ⟨_, [hiddenNeuron "b" 0.0, hiddenNeuron "a" 1.0], rfl, by decide, ?_, rfl, rfl⟩
    have hlisted : (PlainStore.update ⟨[hiddenNeuron "a" 0.5, hiddenNeuron "b" 0.0]⟩
        (hiddenNeuron "a" 1.0)).entries = [hiddenNeuron "b" 0.0, hiddenNeuron "a" 1.0] := by
      rw [PlainStore.entries_update ⟨_, rfl⟩]
      rfl
    exact congrArg Except.ok hlisted
  · exact ⟨_, [hiddenNeuron "a" 0.5, hiddenNeuron "b" 1.0], rfl, by decide, rfl, rfl, rfl⟩

end Plexus
