import Mathlib
import Plexus.Proofs.Store.Table

/-!
# Writes and what they make of a list

A write to a store is carried out in full or refused.  On the list of the entries that a store
holds, a write that is carried out does the same for every store that keeps entries by their
identifiers.  Every entry has a parameter, the bias of a neuron or the weight of a synapse; a
table loses it if it is not a number, and then the row cannot be read any more.
-/

namespace Plexus

open Attempt
open Value (IsText)

/-- A call that writes to a store. -/
inductive Write (ε : Type) where
  | create (e : ε)
  | update (e : ε)
  | delete (id : Value)
  | clear

namespace Write

variable {ε : Type} [Tabular ε]

/-- The step of a write. -/
def perform : Write ε → Attempt (Store ε) Unit
  | create e => Store.create e
  | update e => Store.update e
  | delete id => Store.delete id
  | clear => Store.clear

/-- A store after some writes; those that are refused leave it as it is. -/
def run (s : Store ε) (ws : List (Write ε)) : Store ε :=
  ws.foldl (fun s w => w.perform.after s) s

theorem run_append (s : Store ε) (ws ws' : List (Write ε)) :
    run s (ws ++ ws') = run (run s ws) ws' :=
  List.foldl_append

/-- A list of entries after a write that is carried out. -/
def applied : Write ε → List ε → List ε
  | create e, es => es ++ [e]
  | update e, es => es.map fun d => if (Identified.id d).same (Identified.id e) then e else d
  | delete id, es => es.filter fun e => !(Identified.id e).same id
  | clear, _ => []

/-- Whether a write adds an entry although its identifier is taken. -/
def repeats : Write ε → List ε → Bool
  | create e, es => es.any fun d => (Identified.id d).same (Identified.id e)
  | _, _ => false

theorem map_id_applied_update {es : List ε} (h : ∀ d ∈ es, (Identified.id d).IsText) (e : ε) :
    ((update e).applied es).map Identified.id = es.map Identified.id := by
  rw [applied, List.map_map]
  refine List.map_congr_left fun d hd => ?_
  show Identified.id (if _ then _ else _) = _
  split
  · next hsame => exact Value.eq_of_text_same (h d hd) hsame
  · rfl

theorem applied_update_of_absent {es : List ε} {e : ε} (h : (create e).repeats es = false) :
    (update e).applied es = es := by
  rw [repeats, List.any_eq_false] at h
  calc (update e).applied es = es.map id :=
        List.map_congr_left fun d hd => if_neg (h d hd)
    _ = es := List.map_id es

theorem perform_eq_step (w : Write ε) :
    ∃ f : Store ε → Except Fault (Store ε),
      ∀ s, w.perform.outcome s = (Store.step f).outcome s := by
  cases w with
  | create e => exact ⟨_, fun _ => rfl⟩
  | update e => exact ⟨_, fun _ => rfl⟩
  | delete id => exact ⟨_, fun _ => rfl⟩
  | clear => exact ⟨fun s => .ok s.cleared, fun _ => rfl⟩

/-- A write that is refused leaves the store as it was. -/
theorem after_of_error {w : Write ε} {s t : Store ε} {f : Fault}
    (h : w.perform.outcome s = (.error f, t)) : t = s := by
  rcases w.perform_eq_step with ⟨g, hg⟩
  rw [hg, Store.outcome_step] at h
  split at h
  · cases h
  · exact (congrArg Prod.snd h).symm

end Write

/-!
## Entries with a parameter
-/

/--
Entries with a parameter.  A named entry has texts for its identifiers, and all of its rows are
alike; if its texts can be encoded, then it has one.
-/
class Parametric (ε : Type) [Tabular ε] where
  parameter : ε → Float
  Alike : ε → ε → Prop
  Named : ε → Prop
  Encodable : ε → Prop
  id_isText {e : ε} : Named e → (Identified.id e).IsText
  id_of_alike {e d : ε} : Alike e d → Identified.id d = Identified.id e
  alike_self {e : ε} : (parameter e).isNaN = false → Alike e e
  exists_encode {e : ε} : Named e → Encodable e → ∃ row, Tabular.encode e = .ok row
  revise_eq_encode {e : ε} : Named e → Tabular.revise e = Tabular.encode e
  key_encode {e : ε} {row : Tabular.Row ε} :
    Named e → Tabular.encode e = .ok row → textValue (Tabular.key row) = Identified.id e
  missing_encode {e : ε} {row : Tabular.Row ε} :
    Named e → Tabular.encode e = .ok row → Tabular.missing row = none
  decode_of_number {e : ε} {row : Tabular.Row ε} :
    Named e → Tabular.encode e = .ok row → (parameter e).isNaN = false →
      ∃ d, Tabular.decode row = .ok d ∧ Alike e d
  decode_of_nan {e : ε} {row : Tabular.Row ε} :
    Named e → Tabular.encode e = .ok row → (parameter e).isNaN = true →
      Tabular.decode row = .error .mistyped

/-- A text without a half on its own, which can be encoded. -/
def Value.IsPlain (v : Value) : Prop := ∃ s, v = .text s ∧ Text.hasHalf s = false

theorem Value.columnText_of_isPlain {v : Value} (h : v.IsPlain) :
    ∃ cell, v.columnText = .ok cell := by
  rcases h with ⟨s, rfl, hs⟩
  rw [columnText, hs, if_neg Bool.false_ne_true]
  exact ⟨some s, rfl⟩

theorem Value.columnText_of_isText {v : Value} (h : v.IsText) :
    v.columnText = .error .unencodableText ∨ ∃ s, v = .text s ∧ v.columnText = .ok (some s) := by
  rcases h with ⟨s, rfl⟩
  rw [columnText]
  split
  · exact Or.inl rfl
  · exact Or.inr ⟨s, rfl, rfl⟩

theorem realCell_of_nan {x : Float} (h : x.isNaN = true) : realCell x = none := by
  rw [realCell, if_pos h]

theorem Activation.columnText_of_ofValue {v : Value} {f : Activation} (h : ofValue v = .ok f) :
    v.IsText ∧ ∃ cell, v.columnText = .ok cell := by
  have htext : v.IsText := by
    cases v with
    | text s => exact ⟨s, rfl⟩
    | null | flag | int | real | nan | list | object => cases h
  rcases htext with ⟨s, rfl⟩
  have hs : Text.hasHalf s = false := by
    rw [ofValue] at h
    split at h
    · next hfound =>
        have htag := List.find?_some hfound
        have hmem := List.mem_of_find?_eq_some hfound
        rw [beq_iff_eq] at htag
        rw [← htag]
        simp only [all, List.mem_cons, List.not_mem_nil, or_false] at hmem
        rcases hmem with rfl | rfl | rfl | rfl <;> decide +kernel
    · cases h
  exact ⟨⟨s, rfl⟩, Value.columnText_of_isPlain ⟨s, rfl, hs⟩⟩

/-- A neuron with a text for its identifier and a known activation function. -/
structure Neuron.Named (n : Neuron) : Prop where
  id : n.id.IsText
  activation : ∃ f, Activation.ofValue n.activation = .ok f

/-- A synapse with texts for its identifier and its ends. -/
structure Synapse.Named (s : Synapse) : Prop where
  id : s.id.IsText
  source : s.source.IsText
  target : s.target.IsText

instance : Parametric Neuron where
  parameter := Neuron.bias
  Alike := Neuron.Alike
  Named := Neuron.Named
  Encodable n := n.id.IsPlain
  id_isText := Neuron.Named.id
  id_of_alike := Neuron.Alike.id
  alike_self h := ⟨rfl, rfl, beq_self_of_not_nan h, rfl⟩
  exists_encode h hid := by
    rcases Value.columnText_of_isPlain hid with ⟨id, hid⟩
    rcases h.activation with ⟨f, htag⟩
    rcases Activation.columnText_of_ofValue htag with ⟨-, cell, hcell⟩
    exact ⟨_, by simp only [Tabular.encode, NeuronRow.ofNeuron, hid, hcell]; rfl⟩
  revise_eq_encode {n} h := by
    rcases h.activation with ⟨f, htag⟩
    rcases Activation.columnText_of_ofValue htag with ⟨-, cell, hcell⟩
    simp only [Tabular.encode, Tabular.revise, NeuronRow.ofNeuron, NeuronRow.revised, hcell]
    cases n.id.columnText <;> rfl
  key_encode h hrow := by
    rcases bind_eq_ok hrow with ⟨id, hid, hrow⟩
    rcases bind_eq_ok hrow with ⟨activation, -, hrow⟩
    cases hrow
    exact columnText_eq_ok h.id hid
  missing_encode _ _ := rfl
  decode_of_number h hrow hbias := by
    rcases h.activation with ⟨f, htag⟩
    exact NeuronRow.toNeuron_ofNeuron h.id hbias htag hrow
  decode_of_nan {n row} _ hrow hbias := by
    rcases bind_eq_ok hrow with ⟨id, -, hrow⟩
    rcases bind_eq_ok hrow with ⟨activation, -, hrow⟩
    cases hrow
    show Neuron.make (textValue id) (.text n.kind.tag) (realValue (realCell n.bias))
      (textValue activation) = .error .mistyped
    rw [realCell_of_nan hbias, Neuron.make, Kind.ofValue_tag]
    rfl

instance : Parametric Synapse where
  parameter := Synapse.weight
  Alike := Synapse.Alike
  Named := Synapse.Named
  Encodable s := s.id.IsPlain ∧ s.source.IsPlain ∧ s.target.IsPlain
  id_isText := Synapse.Named.id
  id_of_alike := Synapse.Alike.id
  alike_self h := ⟨rfl, rfl, rfl, beq_self_of_not_nan h⟩
  exists_encode _ hplain := by
    rcases Value.columnText_of_isPlain hplain.1 with ⟨id, hid⟩
    rcases Value.columnText_of_isPlain hplain.2.1 with ⟨source, hsource⟩
    rcases Value.columnText_of_isPlain hplain.2.2 with ⟨target, htarget⟩
    exact ⟨_, by simp only [Tabular.encode, SynapseRow.ofSynapse, hid, hsource, htarget]; rfl⟩
  revise_eq_encode {s} h := by
    simp only [Tabular.encode, Tabular.revise, SynapseRow.ofSynapse, SynapseRow.revised]
    -- Whichever text comes first, the fault of one that cannot be encoded is the same.
    rcases Value.columnText_of_isText h.id with hid | ⟨_, _, hid⟩ <;>
      rcases Value.columnText_of_isText h.source with hsource | ⟨_, _, hsource⟩ <;>
        rcases Value.columnText_of_isText h.target with htarget | ⟨_, _, htarget⟩ <;>
          rw [hid, hsource, htarget] <;> rfl
  key_encode h hrow := by
    rcases bind_eq_ok hrow with ⟨id, hid, hrow⟩
    rcases bind_eq_ok hrow with ⟨source, -, hrow⟩
    rcases bind_eq_ok hrow with ⟨target, -, hrow⟩
    cases hrow
    exact columnText_eq_ok h.id hid
  missing_encode {s row} h hrow := by
    rcases bind_eq_ok hrow with ⟨id, -, hrow⟩
    rcases bind_eq_ok hrow with ⟨source, hsource, hrow⟩
    rcases bind_eq_ok hrow with ⟨target, htarget, hrow⟩
    cases hrow
    rcases h.source with ⟨a, ha⟩
    rcases h.target with ⟨b, hb⟩
    have hsome := columnText_eq_ok h.source hsource
    have hsome' := columnText_eq_ok h.target htarget
    rw [ha] at hsome
    rw [hb] at hsome'
    cases source with
    | none => cases hsome
    | some _ =>
        cases target with
        | none => cases hsome'
        | some _ => rfl
  decode_of_number h hrow hweight :=
    SynapseRow.toSynapse_ofSynapse h.id h.source h.target hweight hrow
  decode_of_nan {s row} _ hrow hweight := by
    rcases bind_eq_ok hrow with ⟨id, -, hrow⟩
    rcases bind_eq_ok hrow with ⟨source, -, hrow⟩
    rcases bind_eq_ok hrow with ⟨target, -, hrow⟩
    cases hrow
    show Synapse.make (textValue id) (textValue source) (textValue target)
      (realValue (realCell s.weight)) = .error .mistyped
    rw [realCell_of_nan hweight]
    rfl

/-!
## A table and the entries that it was given
-/

section Rows

variable {ε : Type} [Tabular ε] [Parametric ε]

open Parametric

/-- The row that a named entry is kept as. -/
structure RowOf (row : Tabular.Row ε) (e : ε) : Prop where
  named : Named e
  encoded : Tabular.encode e = .ok row

theorem RowOf.key {row : Tabular.Row ε} {e : ε} (h : RowOf row e) :
    ∃ s, Tabular.key row = some s ∧ Identified.id e = .text s := by
  have hkey := key_encode h.named h.encoded
  rcases id_isText h.named with ⟨s, hs⟩
  cases hrow : Tabular.key row with
  | none =>
      rw [hrow, hs] at hkey
      cases hkey
  | some a =>
      rw [hrow] at hkey
      exact ⟨a, rfl, hkey.symm⟩

theorem RowOf.hasKey_some {row : Tabular.Row ε} {e : ε} (h : RowOf row e) (s : String) :
    TableStore.hasKey row (some s) = (Identified.id e).same (.text s) := by
  rcases h.key with ⟨a, hkey, hid⟩
  rw [TableStore.hasKey, hkey, hid, Value.same_text_text]
  rfl

theorem RowOf.hasKey {r row : Tabular.Row ε} {d e : ε} (hd : RowOf r d) (he : RowOf row e) :
    TableStore.hasKey r (Tabular.key row) = (Identified.id d).same (Identified.id e) := by
  rcases he.key with ⟨s, hkey, hid⟩
  rw [hkey, hid, hd.hasKey_some]

/-- A table whose rows are those of some entries, in their order. -/
structure TableStore.Holds (t : TableStore ε) (es : List ε) : Prop where
  rows : List.Forall₂ RowOf t.rows es
  distinct : Distinct IsText es

namespace TableStore

theorem holds_empty : (empty : TableStore ε).Holds [] where
  rows := .nil
  distinct := Distinct.nil

variable {t : TableStore ε} {es : List ε} {e : ε} {row : Tabular.Row ε}

theorem any_hasKey {rows : List (Tabular.Row ε)} (h : List.Forall₂ RowOf rows es)
    (he : RowOf row e) :
    (rows.any fun r => hasKey r (Tabular.key row)) = (Write.create e).repeats es := by
  induction h with
  | nil => rfl
  | cons hd _ ih =>
      rw [Write.repeats] at ih ⊢
      rw [List.any_cons, List.any_cons, hd.hasKey he, ih]

theorem Holds.create (h : t.Holds es) (he : RowOf row e) :
    t.create e =
      if (Write.create e).repeats es then .error (.notUnique (Tabular.keyColumn ε))
      else .ok ⟨t.rows ++ [row]⟩ := by
  rw [TableStore.create, he.encoded]
  simp only [bind, Except.bind, missing_encode he.named he.encoded, any_hasKey h.rows he]
  rfl

theorem Holds.snoc (h : t.Holds es) (he : RowOf row e)
    (hnew : (Write.create e).repeats es = false) :
    TableStore.Holds ⟨t.rows ++ [row]⟩ ((Write.create e).applied es) where
  rows := List.rel_append h.rows (.cons he .nil)
  distinct := by
    rw [Write.repeats, List.any_eq_false] at hnew
    exact h.distinct.snoc (id_isText he.named) fun d hd => Bool.not_eq_true _ ▸ hnew d hd

/-- An update replaces the row under its key, which is none if the identifier is not held. -/
theorem Holds.update (h : t.Holds es) (he : RowOf row e) :
    ∃ t', t.update e = .ok t' ∧ t'.Holds ((Write.update e).applied es) := by
  have hupdate : t.update e =
      if (Write.create e).repeats es then
        .ok ⟨t.rows.map fun r => if hasKey r (Tabular.key row) then row else r⟩
      else .ok t := by
    rw [TableStore.update, revise_eq_encode he.named, he.encoded]
    simp only [bind, Except.bind, missing_encode he.named he.encoded, any_hasKey h.rows he]
    rfl
  rw [hupdate]
  split
  · refine ⟨_, rfl, ?_, ?_⟩
    · show List.Forall₂ RowOf (t.rows.map _) (es.map _)
      rw [List.forall₂_map_left_iff, List.forall₂_map_right_iff]
      refine h.rows.imp fun r d hd => ?_
      rw [hd.hasKey he]
      split
      · exact he
      · exact hd
    · exact h.distinct.of_map_id (Write.map_id_applied_update h.distinct.named e)
  · next habsent =>
      rw [Write.applied_update_of_absent (Bool.not_eq_true _ ▸ habsent)]
      exact ⟨t, rfl, h⟩

theorem Holds.delete (h : t.Holds es) {id : Value} (hid : id.IsPlain) :
    ∃ t', t.delete id = .ok t' ∧ t'.Holds ((Write.delete id).applied es) := by
  rcases hid with ⟨s, rfl, hs⟩
  refine ⟨⟨t.rows.filter fun r => !hasKey r (some s)⟩, ?_, ?_, ?_⟩
  · rw [TableStore.delete, Value.columnText, hs]
    rfl
  · show List.Forall₂ RowOf (t.rows.filter _) (es.filter _)
    refine List.rel_filter (fun r d hd => ?_) h.rows
    show (!hasKey r (some s)) = true ↔ (!(Identified.id d).same (.text s)) = true
    rw [hd.hasKey_some s]
  · exact h.distinct.sublist List.filter_sublist

/-- Entries whose parameters are numbers are read back. -/
theorem Holds.getAll_of_numbers (h : t.Holds es) (hes : ∀ e ∈ es, (parameter e).isNaN = false) :
    ∃ ds, t.getAll = .ok ds ∧ List.Forall₂ Alike es ds := by
  rcases t with ⟨rows⟩
  have hrows : List.Forall₂ RowOf rows es := h.rows
  clear h
  rw [getAll]
  induction hrows with
  | nil => exact ⟨[], rfl, .nil⟩
  | @cons row e rows rest he _ ih =>
      rcases decode_of_number he.named he.encoded (hes e List.mem_cons_self) with ⟨d, hd, halike⟩
      rcases ih fun d hd => hes d (List.mem_cons_of_mem e hd) with ⟨ds, hds, hrest⟩
      rw [List.mapM_cons, hd, hds]
      exact ⟨d :: ds, rfl, .cons halike hrest⟩

/-- One entry whose parameter is not a number keeps all from being read. -/
theorem Holds.getAll_of_nan (h : t.Holds es) (he : e ∈ es) (hnan : (parameter e).isNaN = true) :
    t.getAll = .error .mistyped := by
  rcases t with ⟨rows⟩
  have hrows : List.Forall₂ RowOf rows es := h.rows
  clear h
  rw [getAll]
  induction hrows with
  | nil => cases he
  | @cons row d rows rest hd _ ih =>
      rw [List.mapM_cons]
      cases hnumber : (parameter d).isNaN with
      | true =>
          rw [decode_of_nan hd.named hd.encoded hnumber]
          rfl
      | false =>
          rcases decode_of_number hd.named hd.encoded hnumber with ⟨c, hc, -⟩
          have hrest : e ∈ rest := by
            rcases List.mem_cons.mp he with rfl | he
            · rw [hnan] at hnumber
              cases hnumber
            · exact he
          rw [hc, ih hrest]
          rfl

end TableStore
end Rows

/-!
## Writes to a table
-/

namespace Write

variable {ε : Type} [Tabular ε] [Parametric ε]

open Parametric

/-- A write whose identifiers are texts. -/
def Named : Write ε → Prop
  | create e | update e => Parametric.Named e
  | delete id => id.IsText
  | clear => True

/-- A write of which every text can be encoded. -/
def Encodable : Write ε → Prop
  | create e | update e => Parametric.Encodable e
  | delete id => id.IsPlain
  | clear => True

/-- A write that can be put as a statement about rows. -/
def Expressible : Write ε → Prop
  | create e | update e => ∃ row, RowOf row e
  | delete id => id.IsPlain
  | clear => True

theorem Named.expressible {w : Write ε} (h : w.Named) (hplain : w.Encodable) :
    w.Expressible := by
  cases w with
  | create e | update e =>
      rcases exists_encode h hplain with ⟨row, hrow⟩
      exact ⟨row, h, hrow⟩
  | delete id => exact hplain
  | clear => exact trivial

variable {t : TableStore ε} {es : List ε} {w : Write ε}

/-- A write that a table has carried out could be put as a statement. -/
theorem Named.expressible_of_ok {s : Store ε} (h : w.Named)
    (hrun : w.perform.outcome (.table t) = (.ok (), s)) :
    w.Expressible := by
  cases w with
  | clear => exact trivial
  | create e =>
      rw [perform, Store.create, Store.outcome_step, Store.created] at hrun
      cases hcreate : t.create e with
      | error f =>
          rw [hcreate] at hrun
          cases hrun
      | ok t' =>
          rcases TableStore.create_eq_ok hcreate with ⟨row, hrow, -⟩
          exact ⟨row, h, hrow⟩
  | update e =>
      rw [perform, Store.update, Store.outcome_step, Store.updated] at hrun
      cases hupdate : t.update e with
      | error f =>
          rw [hupdate] at hrun
          cases hrun
      | ok t' =>
          rcases bind_eq_ok hupdate with ⟨row, hrow, -⟩
          rw [revise_eq_encode h] at hrow
          exact ⟨row, h, hrow⟩
  | delete id =>
      rw [perform, Store.delete, Store.outcome_step, Store.deleted] at hrun
      rcases h with ⟨s, rfl⟩
      cases hs : Text.hasHalf s with
      | false => exact ⟨s, rfl, hs⟩
      | true =>
          rw [TableStore.delete, Value.columnText, hs] at hrun
          cases hrun

/-- A table refuses to add an entry twice and carries out every other write. -/
theorem outcome_table (h : t.Holds es) (hw : w.Expressible) :
    if w.repeats es then
      w.perform.outcome (.table t) = (.error (.notUnique (Tabular.keyColumn ε)), .table t)
    else ∃ t', w.perform.outcome (.table t) = (.ok (), .table t') ∧ t'.Holds (w.applied es) := by
  cases w with
  | create e =>
      rcases hw with ⟨row, he⟩
      rw [perform, Store.create, Store.outcome_step, Store.created, h.create he]
      split
      · rfl
      · next hnew => exact ⟨_, rfl, h.snoc he (Bool.not_eq_true _ ▸ hnew)⟩
  | update e =>
      rcases hw with ⟨row, he⟩
      rcases h.update he with ⟨t', hupdate, ht'⟩
      rw [perform, Store.update, Store.outcome_step, Store.updated, hupdate]
      exact ⟨t', rfl, ht'⟩
  | delete id =>
      rcases h.delete hw with ⟨t', hdelete, ht'⟩
      rw [perform, Store.delete, Store.outcome_step, Store.deleted, hdelete]
      exact ⟨t', rfl, ht'⟩
  | clear => exact ⟨.empty, rfl, TableStore.holds_empty⟩

end Write
end Plexus
