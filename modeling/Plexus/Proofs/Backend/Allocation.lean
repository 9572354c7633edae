import Mathlib.Data.List.Induction
import Plexus.Proofs.Backend.Soundness

/-!
# Which buffers are allocated

The stage of a dense backend tells which buffers it holds, and the size of the network and of a
batch tell how many cells each of them has.  There are two exceptions: a device that is acquired
again takes the stage back and leaves the buffers, and a network that finds no room takes the
buffers away and leaves the stage.  Until a later request sets both anew, the stage and the buffers
do not belong together; at all other times they do.
-/

namespace Plexus

/-- The buffers that belong to a stage. -/
def Stage.roles : Stage → List BufferRole
  | .uninitialized | .ready => []
  | .compiled => BufferRole.network
  | .trainable => BufferRole.network ++ BufferRole.training

theorem Stage.roles_of_lt {s : Stage} (h : s < .compiled) : s.roles = [] := by
  cases s with
  | uninitialized | ready => rfl
  | compiled | trainable => exact absurd h (by decide)

theorem Stage.weights_mem_roles {s : Stage} (h : .compiled ≤ s) : .weights ∈ s.roles := by
  cases s with
  | uninitialized | ready => exact absurd h (by decide)
  | compiled | trainable => decide

namespace Backend

open Attempt

variable {α : Type} [Scalar α]

/-- A backend that holds the buffers of its stage, each with the cells of its size and batch. -/
structure Provided (b : Backend α) : Prop where
  roles : b.buffers = b.stage.roles
  cells : ∀ role ∈ b.buffers, (b.held.contents role).length = role.cells b.size b.batch

theorem provided_iff {b : Backend α} (h : b.Sound) (hb : b.Fitting) :
    b.Provided ↔ b.buffers = b.stage.roles := by
  refine ⟨Provided.roles, fun hroles => ⟨hroles, fun role hrole => ?_⟩⟩
  rcases h.dense with ⟨settings, held, hmachine⟩
  cases held with
  | network a =>
      rcases hb a (arena_of_dense hmachine) with ⟨rows, hbatch, hsized⟩
      rw [buffers_of_dense hmachine] at hrole
      rw [batch_of_whole hbatch, Backend.held, hmachine]
      exact hsized.length_contents hrole
  | nothing =>
      rw [buffers_of_dense hmachine] at hrole
      cases hrole
  | deltas | training =>
      rw [buffers_of_dense hmachine] at hroles
      cases hstage : b.stage with
      | uninitialized | ready | compiled | trainable =>
          rw [hstage] at hroles
          exact absurd hroles (by simp [Holding.roles, Stage.roles, BufferRole.network,
            BufferRole.training])

omit [Scalar α] in
/-- From the stage on in which there is a network, its buffers are all that matters. -/
theorem roles_iff_of_compiled {b : Backend α} (h : b.Sound) (hstage : .compiled ≤ b.stage) :
    b.buffers = b.stage.roles ↔ .weights ∈ b.buffers := by
  constructor
  · intro hroles
    rw [hroles]
    exact Stage.weights_mem_roles hstage
  · intro hmem
    rcases h.dense with ⟨settings, held, hmachine⟩
    have htargets := h.training hstage hmem
    rw [buffers_of_dense hmachine] at hmem htargets
    rcases Holding.weights_mem_roles.mp hmem with ⟨a, rfl⟩
    have hsome : a.training.isSome = true ↔ b.stage = .trainable :=
      Holding.targets_mem_roles.symm.trans htargets
    rw [buffers_of_dense hmachine]
    show BufferRole.network ++ (if a.training.isSome then BufferRole.training else []) = _
    by_cases htrainable : b.stage = .trainable
    · rw [if_pos (hsome.mpr htrainable), htrainable]
      rfl
    · rw [if_neg fun h => htrainable (hsome.mp h), List.append_nil]
      cases hs : b.stage with
      | compiled => rfl
      | trainable => exact absurd hs htrainable
      | uninitialized | ready =>
          rw [hs] at hstage
          exact absurd hstage (by decide)

theorem Primed.roles_iff {b b' : Backend α} (h : b.Primed b') (hb : b.Sound) :
    b'.buffers = b'.stage.roles ↔ b.buffers = b.stage.roles := by
  have hb' := h.sound hb
  cases h with
  | same => rfl
  | @deltas settings held hmachine hstage cells precision =>
      rw [roles_iff_of_compiled hb' hstage, roles_iff_of_compiled hb hstage,
        buffers_of_dense hmachine]
      exact Holding.weights_mem_roles_withDeltas held cells precision
  | @buffers settings held ts rows hmachine hstage hfits hrows precision x =>
      rw [roles_iff_of_compiled hb' (by decide : Stage.compiled ≤ Stage.trainable),
        roles_iff_of_compiled hb hstage, buffers_of_dense hmachine]
      exact Holding.weights_mem_roles_withTraining held _

/-!
## What upsets the buffers, and what sets them anew
-/

/-- A request after which the buffers are not those of the stage. -/
inductive Request.Upsets (b : Backend α) : Request α → Prop where
  /-- A device is acquired while buffers are held. -/
  | device (hdone : init.succeeds b = true) (hheld : b.buffers ≠ []) : Upsets b (.call .init)
  /-- There is no room for a network in place of an earlier one. -/
  | network {size : Value} {weights biases : Operand α} {batch : Except Fault Number}
      {activations : Except Fault (Option (List Value))} {f : Fault}
      (hstrains : Strains b f (.call (.prepare size weights biases batch activations)))
      (hstage : .compiled ≤ b.stage) :
      Upsets b (.call (.prepare size weights biases batch activations))

/-- A request after which the buffers are those of the stage, whatever they were before. -/
inductive Request.Resets (b : Backend α) : Request α → Prop where
  | device (hdone : init.succeeds b = true) (hheld : b.buffers = []) : Resets b (.call .init)
  | network {size : Value} {weights biases : Operand α} {batch : Except Fault Number}
      {activations : Except Fault (Option (List Value))}
      (hdone : (prepare size weights biases batch activations).succeeds b = true) :
      Resets b (.call (.prepare size weights biases batch activations))
  /-- There is no room for a first network. -/
  | room {size : Value} {weights biases : Operand α} {batch : Except Fault Number}
      {activations : Except Fault (Option (List Value))} {f : Fault}
      (hstrains : Strains b f (.call (.prepare size weights biases batch activations)))
      (hstage : b.stage < .compiled) :
      Resets b (.call (.prepare size weights biases batch activations))
  | release : Resets b (.call .release)

/-- What a request makes of a dense backend. -/
structure Request.Leads (r : Request α) (b b' : Backend α) : Prop where
  sound : b'.Sound
  fitting : Approximating α → b.Fitting → b'.Fitting
  roles : b'.buffers = b'.stage.roles ↔
    r.Resets b ∨ (b.buffers = b.stage.roles ∧ ¬r.Upsets b)

section Leads

variable {r : Request α} {b b' : Backend α}

theorem Request.Leads.of_neither (hresets : ¬r.Resets b) (hupsets : ¬r.Upsets b)
    (hsound : b'.Sound) (hfitting : Approximating α → b.Fitting → b'.Fitting)
    (hroles : b'.buffers = b'.stage.roles ↔ b.buffers = b.stage.roles) : r.Leads b b' where
  sound := hsound
  fitting := hfitting
  roles := by
    rw [hroles, or_iff_right hresets, and_iff_left hupsets]

theorem Request.Leads.of_refill (hb : b.Sound) (hresets : ¬r.Resets b) (hupsets : ¬r.Upsets b)
    (h : b.Refill b') : r.Leads b b' :=
  .of_neither hresets hupsets (h.steady.sound hb) h.fitting
    (by rw [h.steady.buffers, h.steady.stage])

theorem leads_init (hb : b.Sound) : (Request.call .init).Leads b (init.after b) := by
  rcases init_outcomes b with ⟨f, hrun⟩ | ⟨device, hrun⟩
  · have hfails := not_succeeds_of_error hrun
    rw [after_of_outcome hrun]
    refine .of_refill hb ?_ ?_ .same
    · rintro ⟨hdone⟩
      rw [hfails] at hdone
      cases hdone
    · rintro ⟨hdone⟩
      rw [hfails] at hdone
      cases hdone
  · have hdone : init.succeeds b = true := succeeds_of_ok (congrArg Prod.fst hrun)
    rw [after_of_outcome hrun]
    refine ⟨hb.equipped device, fun _ hfitting => hfitting, ?_⟩
    show b.buffers = [] ↔ _
    constructor
    · exact fun hheld => Or.inl (.device hdone hheld)
    · rintro (⟨_, hheld⟩ | ⟨_, hupsets⟩)
      · exact hheld
      · exact Classical.not_not.mp fun hheld => hupsets (.device hdone hheld)

theorem leads_prepare {size : Value} {weights biases : Operand α} {batch : Except Fault Number}
    {activations : Except Fault (Option (List Value))} (hb : b.Sound) :
    (Request.call (.prepare size weights biases batch activations)).Leads b
      ((prepare size weights biases batch activations).after b) := by
  rcases prepare_cases_of_sound hb size weights biases batch activations with
    ⟨f, hrun, hpasses⟩ | ⟨n, f, hstrains, hrun⟩ | ⟨n, settings, rows, hshaped, hroom, hrun⟩
  · have hfails := not_succeeds_of_error hrun
    rw [after_of_outcome hrun]
    refine .of_refill hb ?_ ?_ .same
    · intro hresets
      cases hresets with
      | network hdone => rw [hfails] at hdone; cases hdone
      | room hstrains => exact hpasses _ hstrains
    · intro hupsets
      cases hupsets with
      | network hstrains => exact hpasses _ hstrains
  · have hfails := not_succeeds_of_error hrun
    rw [after_of_outcome hrun]
    refine ⟨sound_of_empty (dense_of_unload rfl hb.dense) (buffers_of_unload rfl),
      fun _ _ => fitting_of_unload rfl, ?_⟩
    rw [buffers_of_unload rfl]
    show [] = b.stage.roles ↔ _
    by_cases hstage : b.stage < .compiled
    · exact iff_of_true (Stage.roles_of_lt hstage).symm (Or.inl (.room hstrains hstage))
    · have hlate := Nat.not_lt.mp hstage
      refine iff_of_false ?_ ?_
      · intro hroles
        have hmem := Stage.weights_mem_roles hlate
        rw [← hroles] at hmem
        cases hmem
      · rintro (hresets | ⟨-, hupsets⟩)
        · cases hresets with
          | network hdone => rw [hfails] at hdone; cases hdone
          | room _ hearly => exact hstage hearly
        · exact hupsets (.network hstrains hlate)
  · have hdone : (prepare size weights biases batch activations).succeeds b = true :=
      succeeds_of_ok (congrArg Prod.fst hrun)
    rw [after_of_outcome hrun]
    exact ⟨sound_loaded hroom, fun _ _ => fitting_loaded hshaped b,
      iff_of_true rfl (Or.inl (.network hdone))⟩

theorem leads_release (hb : b.Sound) : (Request.call .release).Leads b b.release where
  sound := hb.release
  fitting := fun _ _ => fitting_of_unload rfl
  roles := by
    rw [buffers_of_unload rfl, Stage.roles_of_lt (stage_release_lt b)]
    exact iff_of_true rfl (Or.inl .release)

theorem leads_of_fills (hb : b.Sound) (hfills : r.Fills) : r.Leads b (r.perform.after b) := by
  refine .of_refill hb ?_ ?_ (refill_perform hfills b)
  · intro hresets
    cases hresets with
    | device | network | room | release => cases hfills
  · intro hupsets
    cases hupsets with
    | device | network => cases hfills

theorem leads_perform (hb : b.Sound) (r : Request α) : r.Leads b (r.perform.after b) := by
  by_cases hfills : r.Fills
  · exact leads_of_fills hb hfills
  cases r with
  | call c =>
      cases c with
      | init => exact after_bind_pure init _ b ▸ leads_init hb
      | prepare size weights biases batch activations =>
          exact after_bind_pure (prepare size weights biases batch activations) _ b ▸
            leads_prepare hb
      | forward | readParameters => exact absurd trivial hfills
      | release => exact leads_release hb
  | prepareTraining targets rate =>
      have hprimed := primed_perform targets rate b
      exact .of_neither (by rintro ⟨⟩) (by rintro ⟨⟩) (hprimed.sound hb)
        (fun _ => hprimed.fitting) (hprimed.roles_iff hb)
  | setTargets | setLearningRate | trainTick => exact absurd trivial hfills
  | configure settings =>
      have hsteady := steady_configure settings b
      refine .of_neither (by rintro ⟨⟩) (by rintro ⟨⟩) (hsteady.sound hb)
        (fun _ => fitting_configure settings) ?_
      show (b.configure settings).buffers = (b.configure settings).stage.roles ↔ _
      rw [hsteady.buffers, hsteady.stage]

end Leads

/-!
## Runs
-/

theorem sound_run {b : Backend α} (hb : b.Sound) (rs : List (Request α)) : (run rs b).Sound := by
  induction rs using List.reverseRecOn with
  | nil => exact hb
  | append_singleton rs r ih =>
      rw [run_concat]
      exact (leads_perform ih r).sound

theorem fitting_run (happrox : Approximating α) {b : Backend α} (hb : b.Sound) (hfit : b.Fitting)
    (rs : List (Request α)) : (run rs b).Fitting := by
  induction rs using List.reverseRecOn with
  | nil => exact hfit
  | append_singleton rs r ih =>
      rw [run_concat]
      exact (leads_perform (sound_run hb rs) r).fitting happrox ih

theorem Request.Resets.not_upsets {r : Request α} {b : Backend α} (h : r.Resets b) :
    ¬r.Upsets b := by
  intro hupsets
  cases hupsets with
  | device _ hheld =>
      cases h with
      | device _ hnone => exact hheld hnone
  | network hstrains hstage =>
      cases h with
      | room _ hearly => exact absurd hearly (Nat.not_lt.mpr hstage)
      | network hdone =>
          cases hstrains with
          | network hready hcheck hload =>
              have hlate : ¬b.stage < .ready := Nat.not_lt.mpr hready
              rw [Attempt.succeeds, outcome_prepare, if_neg hlate, hcheck] at hdone
              dsimp only at hdone
              rw [hload] at hdone
              cases hdone

/-- Whether each request that upset the buffers was followed by one that set them anew. -/
def Restored (rs : List (Request α)) (b : Backend α) : Prop :=
  ∀ past r later, rs = past ++ r :: later → r.Upsets (run past b) →
    ∃ done q rest, later = done ++ q :: rest ∧ q.Resets (run (past ++ r :: done) b)

omit [Scalar α] in
theorem concat_eq_append_cons {l past later : List α} {x y : α} :
    l ++ [x] = past ++ y :: later ↔
      (later = [] ∧ past = l ∧ y = x) ∨ ∃ rest, later = rest ++ [x] ∧ l = past ++ y :: rest := by
  rcases List.eq_nil_or_concat later with rfl | ⟨rest, z, rfl⟩
  · constructor
    · intro h
      rcases List.append_inj' h rfl with ⟨hl, hx⟩
      exact Or.inl ⟨rfl, hl.symm, (List.cons.inj hx).1.symm⟩
    · rintro (⟨-, rfl, rfl⟩ | ⟨rest, hnil, -⟩)
      · rfl
      · exact absurd hnil.symm (List.append_ne_nil_of_right_ne_nil rest (List.cons_ne_nil x []))
  · rw [List.concat_eq_append, ← List.cons_append, ← List.append_assoc]
    constructor
    · intro h
      rcases List.append_inj' h rfl with ⟨hl, hx⟩
      exact Or.inr ⟨rest, by rw [(List.cons.inj hx).1], hl⟩
    · rintro (⟨hnil, -, -⟩ | ⟨rest', hrest, rfl⟩)
      · exact absurd hnil (List.append_ne_nil_of_right_ne_nil rest (List.cons_ne_nil z []))
      · rcases List.append_inj' hrest rfl with ⟨rfl, hx⟩
        rw [hx]

theorem restored_concat (rs : List (Request α)) (r : Request α) (b : Backend α) :
    Restored (rs ++ [r]) b ↔
      r.Resets (run rs b) ∨ (Restored rs b ∧ ¬r.Upsets (run rs b)) := by
  constructor
  · intro h
    by_cases hresets : r.Resets (run rs b)
    · exact Or.inl hresets
    -- The last request sets nothing anew, so that what was set anew was so before it.
    refine Or.inr ⟨?_, ?_⟩
    · intro past q later heq hupsets
      subst heq
      rcases h past q (later ++ [r]) (by simp) hupsets with ⟨done, q', rest, hlater, hq'⟩
      rcases concat_eq_append_cons.mp hlater with ⟨-, rfl, rfl⟩ | ⟨rest', -, hlater⟩
      · exact absurd hq' hresets
      · exact ⟨done, q', rest', hlater, hq'⟩
    · intro hupsets
      rcases h rs r [] rfl hupsets with ⟨done, q, rest, hnil, -⟩
      exact absurd hnil.symm (List.append_ne_nil_of_right_ne_nil done (List.cons_ne_nil q rest))
  · intro h past q later heq hupsets
    rcases concat_eq_append_cons.mp heq with ⟨rfl, rfl, rfl⟩ | ⟨later, rfl, rfl⟩
    · rcases h with hresets | ⟨-, hcalm⟩
      · exact absurd hupsets hresets.not_upsets
      · exact absurd hupsets hcalm
    · rcases h with hresets | ⟨hrestored, -⟩
      · exact ⟨later, r, [], rfl, hresets⟩
      · rcases hrestored past q later rfl hupsets with ⟨done, q', rest, rfl, hq'⟩
        exact ⟨done, q', rest ++ [r], by simp, hq'⟩

theorem roles_run_iff {b : Backend α} (hb : b.Sound) (hroles : b.buffers = b.stage.roles)
    (rs : List (Request α)) :
    (run rs b).buffers = (run rs b).stage.roles ↔ Restored rs b := by
  -- Both sides change in the same way with one more request.
  induction rs using List.reverseRecOn with
  | nil =>
      refine iff_of_true hroles ?_
      intro past r later heq
      exact absurd heq.symm (List.append_ne_nil_of_right_ne_nil past (List.cons_ne_nil r later))
  | append_singleton rs r ih =>
      rw [run_concat, restored_concat, (leads_perform (sound_run hb rs) r).roles, ih]

theorem approximating_single : Approximating Float32 := by
  intro n k m
  show ((LowRank.principal n n k (m.map Single.widen)).map Single.narrow).size = n * n
  rw [Array.size_map, LowRank.principal]
  split
  · rw [Array.size_replicate]
  · rw [if_pos (Nat.le_refl n), LowRank.principalTall, Array.size_map, Array.size_range]

/--
Whatever a dense backend is asked for, in whatever order and with whatever fails: it holds exactly
the buffers of its stage, each with the cells of its size and batch, if and only if each device that
was acquired while buffers were held, and each network that there was no room for in place of an
earlier one, was followed by a request that set the buffers anew.
-/
theorem provided_iff_restored (host : Host) (requested : Value) (settings : TrainingSettings)
    (rs : List (Request Float32)) :
    (run rs (dense host requested settings)).Provided ↔
      Restored rs (dense host requested settings) := by
  have hsound := sound_dense (α := Float32) host requested settings
  have hfitting := fitting_dense (α := Float32) host requested settings
  rw [provided_iff (sound_run hsound rs) (fitting_run approximating_single hsound hfitting rs)]
  exact roles_run_iff hsound rfl rs

/-- The device is acquired again after a network was prepared: its buffers are still held. -/
theorem not_provided_reacquired :
    (run (setUp ++ [.call .init]) (dense {} (.text "cpu") .default)).stage = .ready ∧
      (run (setUp ++ [.call .init]) (dense {} (.text "cpu") .default)).buffers =
        BufferRole.network := by
  decide +kernel

end Backend
end Plexus
