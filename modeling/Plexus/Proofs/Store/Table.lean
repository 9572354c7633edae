import Mathlib
import Plexus.Proofs.Graph.Document
import Plexus.Proofs.Store.Keyed

/-!
# What stores hand out of what they were given

A keyed store hands out the very entries that it was given.  A table keeps them as rows and
makes them anew.  If their identifiers are texts and their parameters are numbers, then they are
equal to those that it was given, field by field; a zero may have lost its sign.  Entries that
are added one by one are all handed out, up to the first one that is refused.
-/

namespace Plexus

open Attempt
open Value (IsText)

/-- A neuron that is equal to another one, field by field. -/
structure Neuron.Alike (n m : Neuron) : Prop where
  id : m.id = n.id
  kind : m.kind = n.kind
  bias : (n.bias == m.bias) = true
  activation : m.activation = n.activation

/-- A synapse that is equal to another one, field by field. -/
structure Synapse.Alike (s t : Synapse) : Prop where
  id : t.id = s.id
  source : t.source = s.source
  target : t.target = s.target
  weight : (s.weight == t.weight) = true

theorem beq_self_of_not_nan {x : Float} (h : x.isNaN = false) : (x == x) = true := by
  rw [← Bool.not_eq_false, Float.beq_self_eq_false_iff]
  rintro rfl
  cases h

/-!
## Rows
-/

theorem realCell_of_not_nan {x : Float} (h : x.isNaN = false) :
    ∃ y, realCell x = some y ∧ (x == y) = true := by
  rw [realCell, h, if_neg Bool.false_ne_true]
  split
  · next hzero => exact ⟨0.0, rfl, hzero⟩
  · exact ⟨x, rfl, beq_self_of_not_nan h⟩

theorem columnText_eq_ok {v : Value} {cell : Option String} (hv : v.IsText)
    (h : v.columnText = .ok cell) : textValue cell = v := by
  rcases hv with ⟨s, rfl⟩
  rw [Value.columnText] at h
  split at h
  · cases h
  · cases h
    rfl

theorem NeuronRow.toNeuron_ofNeuron {n : Neuron} {row : NeuronRow} {f : Activation}
    (hid : n.id.IsText) (hbias : n.bias.isNaN = false)
    (htag : Activation.ofValue n.activation = .ok f) (h : ofNeuron n = .ok row) :
    ∃ m, row.toNeuron = .ok m ∧ n.Alike m := by
  rcases bind_eq_ok h with ⟨id, hcell, h⟩
  rcases bind_eq_ok h with ⟨activation, htext, h⟩
  cases h
  rcases realCell_of_not_nan hbias with ⟨x, hx, hequal⟩
  have hactivation : n.activation.IsText := by
    cases hn : n.activation with
    | text s => exact ⟨s, rfl⟩
    | null | flag | int | real | nan | list | object =>
        rw [hn] at htag
        cases htag
  refine ⟨{ n with bias := x }, ?_, rfl, rfl, hequal, rfl⟩
  show Neuron.make (textValue id) (.text n.kind.tag) (realValue (realCell n.bias))
    (textValue activation) = .ok { n with bias := x }
  rw [columnText_eq_ok hid hcell, columnText_eq_ok hactivation htext, hx]
  exact Neuron.make_eq_ok htag x

theorem SynapseRow.toSynapse_ofSynapse {s : Synapse} {row : SynapseRow} (hid : s.id.IsText)
    (hsource : s.source.IsText) (htarget : s.target.IsText) (hweight : s.weight.isNaN = false)
    (h : ofSynapse s = .ok row) :
    ∃ t, row.toSynapse = .ok t ∧ s.Alike t := by
  rcases bind_eq_ok h with ⟨id, hid', h⟩
  rcases bind_eq_ok h with ⟨source, hsource', h⟩
  rcases bind_eq_ok h with ⟨target, htarget', h⟩
  cases h
  rcases realCell_of_not_nan hweight with ⟨x, hx, hequal⟩
  refine ⟨{ s with weight := x }, ?_, rfl, rfl, rfl, hequal⟩
  show Synapse.make (textValue id) (textValue source) (textValue target)
    (realValue (realCell s.weight)) = .ok { s with weight := x }
  rw [columnText_eq_ok hid hid', columnText_eq_ok hsource hsource',
    columnText_eq_ok htarget htarget', hx]
  rfl

/-!
## Adding an entry
-/

theorem KeyedStore.toList_of_create {ε : Type} [Identified ε] {s t : KeyedStore ε} {e : ε}
    (h : s.create e = .ok t) : t.toList = s.toList ++ [e] := by
  rw [toList, (create_eq_ok h).2, List.map_append]
  rfl

theorem TableStore.create_eq_ok {ε : Type} [Tabular ε] {s t : TableStore ε} {e : ε}
    (h : s.create e = .ok t) : ∃ row, Tabular.encode e = .ok row ∧ t = ⟨s.rows ++ [row]⟩ := by
  rcases bind_eq_ok h with ⟨row, hrow, h⟩
  refine ⟨row, hrow, ?_⟩
  split at h
  · cases h
  · split at h
    · cases h
    · exact (Except.ok.inj h).symm

/-!
## Entries that are handed out as they were given
-/

section Lists

variable {ε : Type} [Tabular ε] {R : ε → ε → Prop}

/-- An entry that every store hands out as it was given, up to a relation. -/
structure Durable (R : ε → ε → Prop) (e : ε) : Prop where
  self : R e e
  row : ∀ row, Tabular.encode e = .ok row → ∃ d, Tabular.decode row = .ok d ∧ R e d

theorem Neuron.durable {n : Neuron} {f : Activation} (hid : n.id.IsText)
    (hbias : n.bias.isNaN = false) (htag : Activation.ofValue n.activation = .ok f) :
    Durable Neuron.Alike n where
  self := ⟨rfl, rfl, beq_self_of_not_nan hbias, rfl⟩
  row _ h := NeuronRow.toNeuron_ofNeuron hid hbias htag h

theorem Synapse.durable {s : Synapse} (hid : s.id.IsText) (hsource : s.source.IsText)
    (htarget : s.target.IsText) (hweight : s.weight.isNaN = false) :
    Durable Synapse.Alike s where
  self := ⟨rfl, rfl, rfl, beq_self_of_not_nan hweight⟩
  row _ h := SynapseRow.toSynapse_ofSynapse hid hsource htarget hweight h

namespace Store

/-- Whether a store keeps its entries by their identifiers, in memory or in a table. -/
def isKeyed : Store ε → Bool
  | .keyed _ | .table _ => true
  | .plain _ => false

/-- The entries that a store hands out are some entries, up to a relation. -/
def Lists (R : ε → ε → Prop) (s : Store ε) (es : List ε) : Prop :=
  ∃ ds, s.getAll = .ok ds ∧ List.Forall₂ R es ds

theorem lists_cleared {s : Store ε} (h : s.isKeyed = true) : s.cleared.Lists R [] := by
  cases s with
  | keyed | table => exact ⟨[], rfl, .nil⟩
  | plain => cases h

/-- A durable entry that a store takes is handed out after those from before. -/
theorem Lists.create {s t : Store ε} {es : List ε} {e : ε} (h : s.Lists R es) (he : Durable R e)
    (hcreate : s.created e = .ok t) : t.Lists R (es ++ [e]) := by
  rcases h with ⟨ds, hget, hds⟩
  cases s with
  | keyed s =>
      rcases map_eq_ok hcreate with ⟨s', hs', rfl⟩
      cases hget
      refine ⟨s'.toList, rfl, ?_⟩
      rw [KeyedStore.toList_of_create hs']
      exact List.rel_append hds (.cons he.self .nil)
  | table s =>
      rcases map_eq_ok hcreate with ⟨s', hs', rfl⟩
      rcases TableStore.create_eq_ok hs' with ⟨row, hrow, rfl⟩
      rcases he.row row hrow with ⟨d, hd, hR⟩
      refine ⟨ds ++ [d], ?_, List.rel_append hds (.cons hR .nil)⟩
      rw [getAll, TableStore.getAll] at hget ⊢
      rw [List.mapM_append, hget, List.mapM_cons, hd]
      rfl
  | plain s =>
      cases hcreate
      cases hget
      exact ⟨_, rfl, List.rel_append hds (.cons he.self .nil)⟩

theorem create_cases (s : Store ε) (e : ε) :
    (∃ t, s.created e = .ok t ∧ (create e).outcome s = (.ok (), t)) ∨
      ∃ f, s.created e = .error f ∧ (create e).outcome s = (.error f, s) := by
  rw [create, step, outcome_get_bind]
  cases hcreate : s.created e with
  | ok t => exact Or.inl ⟨t, rfl, by rw [outcome_of_ok_bind, outcome_set]⟩
  | error f => exact Or.inr ⟨f, rfl, outcome_of_error_bind f _ s⟩

/-- Entries are added one by one, up to the first that is refused by the store as it is then. -/
theorem forM_create_induction {I : List ε → Store ε → Prop} {es done : List ε} {s : Store ε}
    (hstep : ∀ done e s t, e ∈ es → I done s → s.created e = .ok t → I (done ++ [e]) t)
    (h : I done s) :
    (∃ t, (es.forM create).outcome s = (.ok ⟨⟩, t) ∧ I (done ++ es) t) ∨
      ∃ before e after f t, es = before ++ e :: after ∧ I (done ++ before) t ∧
        t.created e = .error f ∧ (es.forM create).outcome s = (.error f, t) := by
  -- The entries that the store has taken so far move from the list to those that it holds.
  induction es generalizing s done with
  | nil =>
      rw [List.append_nil]
      exact Or.inl ⟨s, rfl, h⟩
  | cons e rest ih =>
      rw [outcome_forM_cons]
      rcases create_cases s e with ⟨t, hcreate, hrun⟩ | ⟨f, hcreate, hrun⟩
      · rw [outcome_bind_of_ok hrun]
        have hrest : ∀ done d s t, d ∈ rest → I done s → s.created d = .ok t → I (done ++ [d]) t :=
          fun done d s t hd => hstep done d s t (List.mem_cons_of_mem e hd)
        rcases ih hrest (hstep done e s t List.mem_cons_self h hcreate) with
          ⟨u, hrun, hu⟩ | ⟨before, d, after, f, u, rfl, hu, hrefused, hrun⟩
        · rw [List.append_assoc] at hu
          exact Or.inl ⟨u, hrun, hu⟩
        · rw [List.append_assoc] at hu
          exact Or.inr ⟨e :: before, d, after, f, u, rfl, hu, hrefused, hrun⟩
      · rw [outcome_bind_of_error hrun]
        refine Or.inr ⟨[], e, rest, f, s, rfl, ?_, hcreate, rfl⟩
        rw [List.append_nil]
        exact h

theorem forM_create_cases {es done : List ε} {s : Store ε} (h : s.Lists R done)
    (hes : ∀ e ∈ es, Durable R e) :
    (∃ t, (es.forM create).outcome s = (.ok ⟨⟩, t) ∧ t.Lists R (done ++ es)) ∨
      ∃ before e after f t, es = before ++ e :: after ∧ t.Lists R (done ++ before) ∧
        t.created e = .error f ∧ (es.forM create).outcome s = (.error f, t) :=
  forM_create_induction (I := fun done s => s.Lists R done)
    (fun _ e _ _ he hs => hs.create (hes e he)) h

end Store
end Lists
end Plexus
