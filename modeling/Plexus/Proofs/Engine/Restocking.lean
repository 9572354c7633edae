import Plexus.Proofs.Engine.Sync

/-!
# Changing what an engine stores

A change of the graph is refused by a store and has no effect, or the stores hold another graph
and are read anew.  What it does not write stays in the stores as it was, in the order that it
had.  This is so on every backend, and also where the cache differs from the stores in
parameters.
-/

namespace Plexus

open Attempt
open Value (IdClass)

/-- A neuron but for its bias. -/
def Neuron.shape (n : Neuron) : Neuron := { n with bias := 0.0 }

/-- A synapse but for its weight. -/
def Synapse.shape (s : Synapse) : Synapse := { s with weight := 0.0 }

/-- A graph is another one with other parameters. -/
structure Revises (ns : List Neuron) (ss : List Synapse) (ns' : List Neuron)
    (ss' : List Synapse) : Prop where
  neurons : ns'.map Neuron.shape = ns.map Neuron.shape
  synapses : ss'.map Synapse.shape = ss.map Synapse.shape

theorem Revises.refl (ns : List Neuron) (ss : List Synapse) : Revises ns ss ns ss := ⟨rfl, rfl⟩

theorem Revises.trans {ns₁ ns₂ ns₃ : List Neuron} {ss₁ ss₂ ss₃ : List Synapse}
    (h : Revises ns₁ ss₁ ns₂ ss₂) (h' : Revises ns₂ ss₂ ns₃ ss₃) : Revises ns₁ ss₁ ns₃ ss₃ :=
  ⟨h'.neurons.trans h.neurons, h'.synapses.trans h.synapses⟩

theorem Revises.symm {ns ns' : List Neuron} {ss ss' : List Synapse} (h : Revises ns ss ns' ss') :
    Revises ns' ss' ns ss :=
  ⟨h.neurons.symm, h.synapses.symm⟩

namespace Engine

variable {α : Type} {P : Value → Prop} {read : Bool} {ns : List Neuron} {ss : List Synapse}

/-- An engine whose stores hold some graph, whatever its cache holds. -/
def Stored (P : Value → Prop) (e : Engine α) : Prop := ∃ ns ss, e.Stocked P ns ss

/--
The stores of an engine hold some graph, and so does its cache, up to parameters.  Before the
stores have been read the cache may hold nothing.
-/
structure Tracked (P : Value → Prop) (read : Bool) (ns : List Neuron) (ss : List Synapse)
    (e : Engine α) : Prop where
  stocked : e.Stocked P ns ss
  cached : Revises ns ss e.neurons e.synapses ∨ read = false ∧ e.neurons = [] ∧ e.synapses = []

theorem tracked_of_cached {ns : List Neuron} {ss : List Synapse} {e : Engine α}
    (hs : e.Stocked P ns ss) (hneurons : e.neurons = ns) (hsynapses : e.synapses = ss) :
    e.Tracked P true ns ss := by
  refine ⟨hs, Or.inl ?_⟩
  rw [hneurons, hsynapses]
  exact .refl ns ss

theorem Tracked.shape_mem {e : Engine α} (h : e.Tracked P read ns ss) :
    (∀ n ∈ e.neurons, n.shape ∈ ns.map Neuron.shape) ∧
      ∀ s ∈ e.synapses, s.shape ∈ ss.map Synapse.shape := by
  rcases h.cached with hcached | ⟨-, hneurons, hsynapses⟩
  · rw [← hcached.neurons, ← hcached.synapses]
    exact ⟨fun n hn => List.mem_map_of_mem hn, fun s hs => List.mem_map_of_mem hs⟩
  · rw [hneurons, hsynapses]
    exact ⟨fun n hn => absurd hn List.not_mem_nil, fun s hs => absurd hs List.not_mem_nil⟩

/--
What a change leaves of a graph: neurons that were there before are as they were, and so are
the synapses that it did not write, in the order that they had.
-/
structure Keeps (writes : Synapse → Bool) (ns : List Neuron) (ss : List Synapse)
    (ns' : List Neuron) (ss' : List Synapse) : Prop where
  neurons : ∀ n ∈ ns', ∀ m ∈ ns, m.id = n.id → n ∈ ns
  synapses : (ss'.filter fun s => !writes s).Sublist ss

theorem keeps_of_sublist {ns ns' : List Neuron} {ss ss' : List Synapse} (hns : ns'.Sublist ns)
    (hss : ss'.Sublist ss) :
    Keeps (fun _ => false) ns ss ns' ss' where
  neurons := fun _ hn _ _ _ => hns.subset hn
  synapses := List.filter_sublist.trans hss

variable [Scalar α]

/-- A step that is refused, or that reads the stores anew once it has changed the graph there. -/
def Amends (P : Value → Prop) (writes : Synapse → Bool) (step : Attempt (Engine α) Projection) :
    Prop :=
  ∀ (e : Engine α) (read : Bool) (ns : List Neuron) (ss : List Synapse), e.Tracked P read ns ss →
    (∃ f, step.outcome e = (.error f, e)) ∨
      ∃ ns' ss' neuronStore synapseStore,
        Stocked P ns' ss' { e with neuronStore, synapseStore } ∧ Keeps writes ns ss ns' ss' ∧
          step.outcome e = refreshAndCompile.outcome { e with neuronStore, synapseStore }

/-!
## Adding
-/

omit [Scalar α] in
/-- A neuron comes behind those that are stored, or it is refused. -/
theorem outcome_createNeuron_cases {n : Neuron} {e : Engine α} (hP : IdClass P)
    (hs : e.Stocked P ns ss) (hn : P n.id) :
    (∃ f, (onNeurons (Store.create n)).outcome e = (.error f, e)) ∨
      ∃ neuronStore, Stocked P (ns ++ [n]) ss { e with neuronStore } ∧
        (onNeurons (Store.create n)).outcome e = (.ok (), { e with neuronStore }) := by
  rcases Store.outcome_create hP hs.neurons hn with ⟨f, hf⟩ | ⟨hok, hdistinct⟩
  · apply Or.inl
    refine ⟨f, ?_⟩
    rw [outcome_onNeurons hs.neuronStore hf, ← hs.neuronStore]
  · refine Or.inr ⟨.keyed (.ofList (ns ++ [n])), ?_, outcome_onNeurons hs.neuronStore hok⟩
    exact ⟨rfl, hs.synapseStore, hdistinct, hs.synapses, hs.ends⟩

omit [Scalar α] in
/-- A synapse comes behind those that are stored, or it is refused. -/
theorem outcome_createSynapse_cases {s : Synapse} {e : Engine α} (hP : IdClass P)
    (hs : e.Stocked P ns ss) (hid : P s.id) (hends : P s.source ∧ P s.target) :
    (∃ f, (onSynapses (Store.create s)).outcome e = (.error f, e)) ∨
      ∃ synapseStore, Stocked P ns (ss ++ [s]) { e with synapseStore } ∧
        (onSynapses (Store.create s)).outcome e = (.ok (), { e with synapseStore }) := by
  rcases Store.outcome_create hP hs.synapses hid with ⟨f, hf⟩ | ⟨hok, hdistinct⟩
  · apply Or.inl
    refine ⟨f, ?_⟩
    rw [outcome_onSynapses hs.synapseStore hf, ← hs.synapseStore]
  · refine Or.inr ⟨.keyed (.ofList (ss ++ [s])), ?_, outcome_onSynapses hs.synapseStore hok⟩
    refine ⟨hs.neuronStore, rfl, hs.neurons, hdistinct, ?_⟩
    exact List.forall_mem_append.mpr ⟨hs.ends, List.forall_mem_singleton.mpr hends⟩

theorem amends_createNeuron {n : Neuron} (hP : IdClass P) (hn : P n.id) :
    Amends P (fun _ => false)
      (onNeurons (α := α) (Store.create n) >>= fun _ => refreshAndCompile) := by
  intro e read ns ss h
  rcases outcome_createNeuron_cases hP h.stocked hn with
    ⟨f, hfails⟩ | ⟨neuronStore, hs, hrun⟩
  · exact Or.inl ⟨f, outcome_bind_of_error hfails _⟩
  · refine Or.inr ⟨_, _, neuronStore, e.synapseStore, hs, ⟨?_, List.filter_sublist⟩,
      outcome_bind_of_ok hrun _⟩
    intro d hd m hm hid
    rcases List.mem_append.mp hd with hd | hd
    · exact hd
    · rw [List.mem_singleton.mp hd] at hid
      have hnew := (List.pairwise_append.mp hs.neurons.apart).2.2 m hm n (by simp)
      have hself := (hP.isKey _ hn).2
      simp only [Identified.id] at hnew
      rw [hid, hself] at hnew
      cases hnew

theorem amends_createSynapse {s : Synapse} (hP : IdClass P) (hid : P s.id)
    (hends : P s.source ∧ P s.target) :
    Amends P (fun d => d.id.same s.id)
      (onSynapses (α := α) (Store.create s) >>= fun _ => refreshAndCompile) := by
  intro e read ns ss h
  rcases outcome_createSynapse_cases hP h.stocked hid hends with
    ⟨f, hfails⟩ | ⟨synapseStore, hs, hrun⟩
  · exact Or.inl ⟨f, outcome_bind_of_error hfails _⟩
  · refine Or.inr ⟨_, _, e.neuronStore, synapseStore, hs, ⟨fun d hd _ _ _ => hd, ?_⟩,
      outcome_bind_of_ok hrun _⟩
    have hself := (hP.isKey _ hid).2
    rw [List.filter_append]
    simp [hself]

/-!
## Deleting
-/

omit [Scalar α] in
/-- Deleting synapses one after the other leaves those with other identifiers, in order. -/
theorem outcome_deleteSynapses {e : Engine α} (hP : IdClass P)
    (hstore : e.synapseStore = .keyed (.ofList ss)) (ds : List Synapse) (hds : ∀ d ∈ ds, P d.id) :
    (ds.forM fun d => onSynapses (Store.delete d.id)).outcome e =
      (.ok (), { e with
        synapseStore :=
          .keyed (.ofList (ss.filter fun s => !ds.any fun d => s.id.same d.id)) }) := by
  have hloop := outcome_forM_of_step (l := ds) (s := e)
    (f := fun d : Synapse => onSynapses (Store.delete d.id))
    (I := fun done _ t => t = { e with
      synapseStore :=
        .keyed (.ofList (ss.filter fun s => !done.any fun d => s.id.same d.id)) }) ?_ ?_
  · rcases hloop with ⟨t, hrun, rfl⟩
    exact hrun
  · rintro done d _ t hd rfl
    have hid := (hP.isKey _ (hds d hd)).1
    have hstep := outcome_onSynapses (e := { e with
      synapseStore := .keyed (.ofList (ss.filter fun s => !done.any fun d => s.id.same d.id)) }) rfl
      (Store.outcome_delete hid)
    refine ⟨_, hstep, ?_⟩
    simp only [List.filter_filter, List.any_append, List.any_cons, List.any_nil, Bool.or_false,
      Bool.not_or, Bool.and_comm, Identified.id]
  · have hall : ss.filter (fun _ => true) = ss := List.filter_eq_self.mpr fun _ _ => rfl
    simp only [List.any_nil, Bool.not_false, hall, ← hstore]

/-- What is no identifier touches no synapse of a stocked engine. -/
theorem filter_touches_eq_nil {id : Value} (hP : IdClass P)
    (hends : ∀ s ∈ ss, P s.source ∧ P s.target) (hid : id.isScalar = false) :
    ss.filter (touches id) = [] := by
  rw [List.filter_eq_nil_iff]
  intro s hs
  have hsource := Value.same_eq_false_of_not_scalar (hP.isKey _ (hends s hs).1).1 hid
  have htarget := Value.same_eq_false_of_not_scalar (hP.isKey _ (hends s hs).2).1 hid
  rw [touches, hsource, htarget]
  decide

omit [Scalar α] in
/-- Synapses and then a neuron are deleted from the stores, or all of that is refused. -/
theorem outcome_deleteNeuron_cases {γ : Type} {ds : List Synapse} {e : Engine α} {id : Value}
    (hP : IdClass P) (hs : e.Stocked P ns ss) (hds : ∀ d ∈ ds, P d.id)
    (hnone : id.isScalar = false → ds = []) (next : Attempt (Engine α) γ) :
    (∃ f, ((ds.forM fun d => onSynapses (Store.delete d.id)) >>= fun _ =>
        onNeurons (Store.delete id) >>= fun _ => next).outcome e = (.error f, e)) ∨
      ∃ neuronStore synapseStore,
        Stocked P (ns.filter fun n => !n.id.same id)
          (ss.filter fun s => !ds.any fun d => s.id.same d.id)
          { e with neuronStore, synapseStore } ∧
        ((ds.forM fun d => onSynapses (Store.delete d.id)) >>= fun _ =>
          onNeurons (Store.delete id) >>= fun _ => next).outcome e =
            next.outcome { e with neuronStore, synapseStore } := by
  rw [outcome_bind_of_ok (outcome_deleteSynapses hP hs.synapseStore ds hds)]
  cases hid : id.isScalar with
  | true =>
      have hstep := outcome_onNeurons (e := { e with
        synapseStore := .keyed (.ofList (ss.filter fun s => !ds.any fun d => s.id.same d.id)) })
        hs.neuronStore (Store.outcome_delete hid)
      refine Or.inr ⟨_, _, ?_, outcome_bind_of_ok hstep _⟩
      exact ⟨rfl, rfl, hs.neurons.sublist List.filter_sublist,
        hs.synapses.sublist List.filter_sublist,
        fun s hs' => hs.ends s (List.mem_filter.mp hs').1⟩
  | false =>
      have hns : (ns.filter fun n => !n.id.same id) = ns := by
        refine List.filter_eq_self.mpr fun n hn => ?_
        have hkey : n.id.IsKey := hP.isKey _ (hs.neurons.named n hn)
        rw [Value.same_eq_false_of_not_scalar hkey.1 hid]
        rfl
      have hss : (ss.filter fun s => !ds.any fun d => s.id.same d.id) = ss := by
        rw [hnone hid]
        exact List.filter_eq_self.mpr fun _ _ => rfl
      rcases Store.outcome_delete_of_not_scalar ns hid with ⟨r, hr⟩
      have hstep := outcome_onNeurons hs.neuronStore hr
      rw [← hs.neuronStore] at hstep
      rw [hns, hss, ← hs.synapseStore]
      cases r with
      | error f => exact Or.inl ⟨f, outcome_bind_of_error hstep _⟩
      | ok _ => exact Or.inr ⟨_, _, hs, outcome_bind_of_ok hstep _⟩

/-- What the synapses of a store are once those have been deleted that are cached at a neuron. -/
def detached (id : Value) (cached ss : List Synapse) : List Synapse :=
  ss.filter fun s => !(cached.filter (touches id)).any fun d => s.id.same d.id

/-- What comes after writing parameters back when a neuron is deleted. -/
def remove (id : Value) : Attempt (Engine α) Projection := do
  ((← get).synapses.filter (touches id)).forM fun s => onSynapses (Store.delete s.id)
  onNeurons (Store.delete id)
  refreshAndCompile

theorem deleteNeuron_eq (id : Value) :
    (deleteNeuron id : Attempt (Engine α) Projection) = syncIfTrained >>= fun _ => remove id := rfl

omit [Scalar α] in
theorem ends_of_shape {ss' : List Synapse} (hends : ∀ s ∈ ss, P s.source ∧ P s.target)
    (h : ss'.map Synapse.shape = ss.map Synapse.shape) :
    ∀ s ∈ ss', P s.source ∧ P s.target := by
  intro s hs
  have hmem : s.shape ∈ ss.map Synapse.shape := h ▸ List.mem_map_of_mem hs
  rcases List.mem_map.mp hmem with ⟨d, hd, hshape⟩
  show P s.shape.source ∧ P s.shape.target
  rw [← hshape]
  exact hends d hd

/-- A removal is refused without effect, or takes the neuron and the cached synapses at it. -/
theorem remove_cases {e : Engine α} (hP : IdClass P) (h : e.Tracked P read ns ss) (id : Value) :
    (∃ f, (remove id).outcome e = (.error f, e)) ∨
      ∃ neuronStore synapseStore,
        Stocked P (ns.filter fun n => !n.id.same id) (detached id e.synapses ss)
          { e with neuronStore, synapseStore } ∧
        (remove id).outcome e = refreshAndCompile.outcome { e with neuronStore, synapseStore } := by
  have hs := h.stocked
  have hids : ∀ d ∈ e.synapses.filter (touches id), P d.id := by
    intro d hd
    have hmem := h.shape_mem.2 d (List.mem_filter.mp hd).1
    rcases List.mem_map.mp hmem with ⟨d', hd', hshape⟩
    show P d.shape.id
    rw [← hshape]
    exact hs.synapses.named d' hd'
  have hends : ∀ s ∈ e.synapses, P s.source ∧ P s.target := by
    rcases h.cached with hcached | ⟨-, -, hnone⟩
    · exact ends_of_shape hs.ends hcached.synapses
    · rw [hnone]
      exact fun s hs' => absurd hs' List.not_mem_nil
  rw [remove, outcome_get_bind]
  rcases outcome_deleteNeuron_cases hP hs hids (filter_touches_eq_nil hP hends)
    refreshAndCompile with hfails | ⟨neuronStore, synapseStore, hs', hrun⟩
  · exact Or.inl hfails
  · exact Or.inr ⟨neuronStore, synapseStore, hs', hrun⟩

theorem amends_remove (hP : IdClass P) (id : Value) :
    Amends P (fun _ => false) (remove (α := α) id) := by
  intro e read ns ss h
  rcases remove_cases hP h id with hfails | ⟨neuronStore, synapseStore, hs, hrun⟩
  · exact Or.inl hfails
  · exact Or.inr ⟨_, _, neuronStore, synapseStore, hs,
      keeps_of_sublist List.filter_sublist List.filter_sublist, hrun⟩

theorem amends_deleteSynapse (id : Value) :
    Amends P (fun _ => false)
      (onSynapses (α := α) (Store.delete id) >>= fun _ => refreshAndCompile) := by
  intro e read ns ss h
  have hs := h.stocked
  cases hid : id.isScalar with
  | true =>
      have hstep := outcome_onSynapses hs.synapseStore (Store.outcome_delete hid)
      have hkept : (ss.filter fun s => !s.id.same id).Sublist ss := List.filter_sublist
      refine Or.inr ⟨ns, _, e.neuronStore, .keyed (.ofList (ss.filter fun s => !s.id.same id)),
        ?_, keeps_of_sublist (List.Sublist.refl ns) hkept, outcome_bind_of_ok hstep _⟩
      exact ⟨hs.neuronStore, rfl, hs.neurons, hs.synapses.sublist hkept,
        fun s hs' => hs.ends s (hkept.subset hs')⟩
  | false =>
      rcases Store.outcome_delete_of_not_scalar ss hid with ⟨r, hr⟩
      have hstep := outcome_onSynapses hs.synapseStore hr
      rw [← hs.synapseStore] at hstep
      cases r with
      | error f => exact Or.inl ⟨f, outcome_bind_of_error hstep _⟩
      | ok _ =>
          exact Or.inr ⟨ns, ss, e.neuronStore, e.synapseStore, hs,
            keeps_of_sublist (List.Sublist.refl ns) (List.Sublist.refl ss),
            outcome_bind_of_ok hstep _⟩

/-!
## Rewriting
-/

theorem make_synapse_eq_ok {id source target weight : Value} {s : Synapse}
    (h : Synapse.make id source target weight = .ok s) :
    ∃ w, s = ⟨id, source, target, w⟩ := by
  rcases bind_eq_ok h with ⟨w, -, h⟩
  cases h
  exact ⟨w, rfl⟩

omit [Scalar α] in
theorem outcome_findSynapse (id : Value) (e : Engine α) :
    (findSynapse id).outcome e =
      match e.synapses.find? fun s => s.id.equal id with
      | some s => (.ok s, e)
      | none => (.error (.unknownSynapse id), e) := by
  rw [findSynapse, outcome_get_bind]
  cases e.synapses.find? fun s => s.id.equal id <;> rfl

omit [Scalar α] in
/-- An entry of a store is replaced by one that differs from it in parameters only. -/
theorem outcome_update_of_shape {ε : Type} [Tabular ε] {es : List ε} {e : ε} (hP : IdClass P)
    (shape : ε → ε) (hid : ∀ d, Identified.id (shape d) = Identified.id d)
    (hes : Distinct P es) (he : shape e ∈ es.map shape) :
    ∃ xs d ys, es = xs ++ d :: ys ∧ Distinct P (xs ++ e :: ys) ∧
      (xs ++ e :: ys).map shape = es.map shape ∧
      (Store.update e).outcome (.keyed (.ofList es)) =
        (.ok (), .keyed (.ofList (xs ++ e :: ys))) := by
  rcases List.mem_map.mp he with ⟨d, hd, hshape⟩
  rcases List.append_of_mem hd with ⟨xs, ys, rfl⟩
  have hsame : Identified.id e = Identified.id d := by
    rw [← hid e, ← hshape, hid d]
  refine ⟨xs, d, ys, rfl, (KeyedStore.update_ofList hP hes hsame).2, ?_,
    Store.outcome_update hP hes hsame⟩
  rw [List.map_append, List.map_append, List.map_cons, List.map_cons, hshape]

/-- What comes after writing parameters back when a synapse is given another weight. -/
def reweigh (id weight : Value) : Attempt (Engine α) Projection := do
  let s ← findSynapse id
  let s ← Attempt.of (Synapse.make s.id s.source s.target weight)
  onSynapses (Store.update s)
  refreshAndCompile

theorem amends_reweigh (hP : IdClass P) (id weight : Value) :
    Amends P (fun d => d.id.equal id) (reweigh (α := α) id weight) := by
  intro e read ns ss h
  have hs := h.stocked
  have hfind := outcome_findSynapse id e
  cases hfound : e.synapses.find? fun s => s.id.equal id with
  | none =>
      rw [hfound] at hfind
      exact Or.inl ⟨_, outcome_bind_of_error hfind _⟩
  | some s =>
      rw [hfound] at hfind
      cases hmake : Synapse.make s.id s.source s.target weight with
      | error f =>
          apply Or.inl
          refine ⟨f, ?_⟩
          rw [reweigh, outcome_bind_of_ok hfind, hmake, outcome_of_error_bind]
      | ok s' =>
          rcases make_synapse_eq_ok hmake with ⟨w, rfl⟩
          have hmem : Synapse.shape { s with weight := w } ∈ ss.map Synapse.shape :=
            h.shape_mem.2 s (List.mem_of_find?_eq_some hfound)
          rcases outcome_update_of_shape hP Synapse.shape (fun _ => rfl) hs.synapses hmem with
            ⟨xs, d, ys, hsplit, hdistinct, hshape, hrun⟩
          refine Or.inr ⟨ns, xs ++ { s with weight := w } :: ys, e.neuronStore,
            .keyed (.ofList (xs ++ { s with weight := w } :: ys)), ?_,
            ⟨fun n hn _ _ _ => hn, ?_⟩, ?_⟩
          · exact ⟨hs.neuronStore, rfl, hs.neurons, hdistinct, ends_of_shape hs.ends hshape⟩
          · have hid : Value.equal s.id id = true :=
              List.find?_some hfound (p := fun s : Synapse => s.id.equal id)
            rw [hsplit, List.filter_append, List.filter_cons_of_neg (by simp [hid])]
            exact List.Sublist.append List.filter_sublist
              (List.filter_sublist.trans (List.sublist_cons_self _ _))
          · rw [reweigh, outcome_bind_of_ok hfind, hmake, outcome_of_ok_bind,
              outcome_bind_of_ok (outcome_onSynapses hs.synapseStore hrun)]

end Engine
end Plexus
