import Mathlib.Data.List.Forall2
import Plexus.Numeric.Single
import Plexus.Proofs.Backend.Lifecycle
import Plexus.Proofs.Backend.OpGraph

/-!
# The two backends for each other

For inference it does not matter which backend runs a network.  Whatever calls are made, a dense
backend that stores its parameters in single precision and a graph backend are always in the
same stage, give the same answers and fail in the same way, as long as there is room for the
buffers of the dense one.
-/

namespace Plexus
namespace Backend

open Attempt

/-!
## Calls
-/

/-- A call that any backend can be given. -/
inductive Call (α : Type) where
  | init
  | prepare (size : Value) (weights biases : Operand α) (batch : Except Fault Number)
      (activations : Except Fault (Option (List Value)))
  | forward (inputs : Operand α)
  | readParameters
  | release

/-- What a call gives back. -/
inductive Answer (α : Type) where
  | nothing
  | outputs (xs : Array α)
  | parameters (weights biases : Array α)

variable {α : Type} [Scalar α]

/-- Makes a call. -/
def Call.perform : Call α → Attempt (Backend α) (Answer α)
  | .init => do
      Backend.init
      return .nothing
  | .prepare size weights biases batch activations => do
      Backend.prepare size weights biases batch activations
      return .nothing
  | .forward inputs => return .outputs (← Backend.forward inputs)
  | .readParameters => do
      let (weights, biases) ← Backend.readParameters
      return .parameters weights biases
  | .release => do
      modify Backend.release
      return .nothing

/-- What calls come to, one after the other: each result with the backend after it. -/
def trace : List (Call α) → Backend α → List (Except Fault (Answer α) × Backend α)
  | [], _ => []
  | call :: rest, b => call.perform.outcome b :: trace rest (call.perform.after b)

/--
Whether the buffers of the network that a call prepares can be allocated in a memory.  Only a
network that passes the checks counts.
-/
def Call.HasRoom (memory : Memory) : Call α → Prop
  | .prepare size weights biases batch activations =>
      ∀ n, checkNetwork memory size weights biases batch activations = .ok n →
        ∃ rows : Nat, n.batch = .whole rows ∧ Machine.hasRoom memory n.size rows = true
  | _ => True

/-- Equal results, or faults of the same family. -/
inductive SameResult {β : Type} : Except Fault β → Except Fault β → Prop
  | ok (b : β) : SameResult (.ok b) (.ok b)
  | error {e f : Fault} (h : e.family = f.family) : SameResult (.error e) (.error f)

/-- What can be seen of two backends after the same call. -/
structure Alike {β : Type} (p q : Except Fault β × Backend α) : Prop where
  result : SameResult p.1 q.1
  stage : p.2.stage = q.2.stage
  size : p.2.size = q.2.size
  batch : p.2.givenBatch = q.2.givenBatch

/-!
## Networks that pass the checks
-/

/-- A network whose parts have the lengths that its size asks for. -/
structure Shaped (n : Network α) : Prop where
  weights : n.weights.size = n.size * n.size
  biases : n.biases.size = n.size
  codes : n.codes.length = n.size

theorem length_ofTags [Memory] {tags : Option (List Value)} {m : Nat} {codes : List Activation}
    (h : Activation.ofTags tags (.int m) = .ok codes) : codes.length = m := by
  cases tags with
  | none =>
      rcases bind_eq_ok h with ⟨extent, hextent, h⟩
      cases hextent
      rcases bind_eq_ok h with ⟨n, hn, h⟩
      cases h
      rcases bind_eq_ok hn with ⟨length, hlength, hn⟩
      rcases guard_eq_ok hn with ⟨-, hn⟩
      cases hn
      unfold Value.arrayLength at hlength
      split at hlength
      · cases hlength
      · cases hlength
        rw [List.length_replicate, Int.toNat_natCast]
  | some tags =>
      unfold Activation.ofTags at h
      rcases guard_eq_ok h with ⟨hcount, h⟩
      rcases bind_eq_ok h with ⟨_, -, h⟩
      have hlength : (tags.length : Int) = m := by
        rw [← equal_int_iff]
        simpa using hcount
      rw [length_of_mapM_eq_ok h]
      exact Int.ofNat_inj.mp hlength

omit [Scalar α] in
theorem shaped_of_checkNetwork {memory : Memory} {size : Value} {weights biases : Operand α}
    {batch : Except Fault Number} {activations : Except Fault (Option (List Value))}
    {n : Network α} (h : checkNetwork memory size weights biases batch activations = .ok n) :
    Shaped n := by
  rcases bind_eq_ok h with ⟨batch, -, h⟩
  rcases guard_eq_ok h with ⟨-, h⟩
  rcases bind_eq_ok h with ⟨ws, -, h⟩
  rcases bind_eq_ok h with ⟨bs, -, h⟩
  rcases bind_eq_ok h with ⟨total, htotal, h⟩
  rcases guard_eq_ok h with ⟨hweights, h⟩
  rcases guard_eq_ok h with ⟨hbiases, h⟩
  rcases bind_eq_ok h with ⟨tags, -, h⟩
  rcases bind_eq_ok h with ⟨codes, hcodes, h⟩
  rcases bind_eq_ok h with ⟨m, hextent, h⟩
  cases h
  have hsize : size = .int m := by
    cases size with
    | int k =>
        cases hextent
        rfl
    | null | flag | real | nan | text | list | object => cases hextent
  subst hsize
  cases htotal
  have hbiases' : (bs.size : Int) = m := by
    rw [← equal_int_iff]
    simpa using hbiases
  have hweights' : (ws.size : Int) = m * m := by
    rw [← equal_int_iff]
    simpa using hweights
  have hm : (m.toNat : Int) = m := Int.toNat_of_nonneg (by omega)
  rw [← hm] at hbiases' hweights' hcodes
  constructor
  · exact Int.ofNat_inj.mp hweights'
  · exact Int.ofNat_inj.mp hbiases'
  · exact @length_ofTags memory _ _ _ hcodes

/-!
## Running in step
-/

/-- A dense machine and a graph machine that keep the same network, or none. -/
inductive Paired (size : Nat) (batch : Number) (stage : Stage) : Machine α → Machine α → Prop
  | empty {settings : TrainingSettings} {claims : Bool} (precision : settings.basePrecision = .fp32)
      (early : stage < .compiled) :
      Paired size batch stage (.dense settings .nothing) (.graph claims none)
  | network {settings : TrainingSettings} {claims : Bool} {a : Arena α} {codes : List Activation}
      {weights biases : Array α} {rows : Nat} (precision : settings.basePrecision = .fp32)
      (batch_eq : batch = .whole rows) (rows_le : rows ≤ Machine.maxRows)
      (weights_eq : a.weights = weights) (biases_eq : a.biases = biases)
      (codes_eq : a.codes = codes.toArray) (cells : weights.size = size * size)
      (slots : biases.size = size) (length : codes.length = size) :
      Paired size batch stage (.dense settings (.network a))
        (.graph claims (some (OpGraph.build size weights biases codes)))

/-- A dense backend and a graph backend on one host that have been given the same calls. -/
structure Twins (host : Host) (d g : Backend α) : Prop where
  hosts : d.host = host ∧ g.host = host
  requested : d.requested = .text "cpu" ∧ g.requested = .text "cpu"
  stage : d.stage = g.stage
  size : d.size = g.size
  batch : d.givenBatch = g.givenBatch
  paired : Paired d.size d.givenBatch d.stage d.machine g.machine

theorem twins_new (host : Host) {settings : TrainingSettings} (h : settings.basePrecision = .fp32) :
    Twins host (dense host (.text "cpu") settings : Backend α)
      (graph host (.text "cpu") false) where
  hosts := ⟨rfl, rfl⟩
  requested := ⟨rfl, rfl⟩
  stage := rfl
  size := rfl
  batch := rfl
  paired := .empty h (by decide : Stage.uninitialized < Stage.compiled)

/-- Two backends after a step each, if the results are the same and they are still twins. -/
structure InStep {β : Type} (host : Host) (step : Attempt (Backend α) β) (d g : Backend α) :
    Prop where
  result : SameResult (step.outcome d).1 (step.outcome g).1
  twins : Twins host (step.after d) (step.after g)

variable {host : Host}

theorem InStep.of_outcome {β : Type} {step : Attempt (Backend α) β} {d g d' g' : Backend α}
    {r r' : Except Fault β} (hd : step.outcome d = (r, d')) (hg : step.outcome g = (r', g'))
    (hr : SameResult r r') (htwins : Twins host d' g') : InStep host step d g where
  result := by rw [hd, hg]; exact hr
  twins := by rw [after_of_outcome hd, after_of_outcome hg]; exact htwins

theorem InStep.bind {β γ : Type} {step : Attempt (Backend α) β} {next : β → Attempt (Backend α) γ}
    {d g : Backend α} (hstep : InStep host step d g)
    (hnext : ∀ b d' g', Twins host d' g' → InStep host (next b) d' g') :
    InStep host (step >>= next) d g := by
  have hresult := hstep.result
  have htwins := hstep.twins
  unfold after at htwins
  cases hd : step.outcome d with
  | mk r d' =>
      cases hg : step.outcome g with
      | mk r' g' =>
          rw [hd, hg] at hresult htwins
          cases hresult with
          | ok b =>
              have hboth := hnext b d' g' htwins
              exact .of_outcome (outcome_bind_of_ok hd next) (outcome_bind_of_ok hg next)
                hboth.result hboth.twins
          | error h =>
              exact .of_outcome (outcome_bind_of_error hd next) (outcome_bind_of_error hg next)
                (.error h) htwins

theorem InStep.pure {β : Type} (b : β) {d g : Backend α} (h : Twins host d g) :
    InStep host (Pure.pure b : Attempt (Backend α) β) d g :=
  .of_outcome (outcome_pure b d) (outcome_pure b g) (.ok b) h

variable {d g : Backend α}

/-- A stage that is too early is too early for both. -/
theorem inStep_of_stage {β : Type} {needed : Stage} {operation : String}
    {next : Unit → Attempt (Backend α) β} (h : Twins host d g)
    (hlate : ¬d.stage < needed → ¬g.stage < needed →
      InStep host (require needed operation >>= next) d g) :
    InStep host (require needed operation >>= next) d g := by
  by_cases hearly : d.stage < needed
  · have hd := outcome_require needed operation d
    have hg := outcome_require needed operation g
    rw [if_pos hearly] at hd
    rw [← h.stage, if_pos hearly] at hg
    exact .of_outcome (outcome_bind_of_error hd next) (outcome_bind_of_error hg next)
      (.error rfl) h
  · exact hlate hearly (h.stage ▸ hearly)

theorem Paired.withStage {size : Nat} {batch : Number} {old new : Stage} {m m' : Machine α}
    (h : Paired size batch old m m') (hearly : old < .compiled → new < .compiled) :
    Paired size batch new m m' := by
  cases h with
  | empty precision early => exact .empty precision (hearly early)
  | network precision batch_eq rows_le weights_eq biases_eq codes_eq cells slots length =>
      exact .network precision batch_eq rows_le weights_eq biases_eq codes_eq cells slots length

/-- A named device is found or refused, whichever kind of backend asks for it. -/
theorem resolve_text (host : Host) (name : String) (acceleratorOnly : Bool) :
    Device.resolve host (.text name) acceleratorOnly = Device.resolve host (.text name) false :=
  rfl

omit [Scalar α] in
theorem outcome_init_of_text {b : Backend α} {name : String} (h : b.requested = .text name) :
    (init : Attempt (Backend α) Unit).outcome b =
      match Device.resolve b.host (.text name) false with
      | .error e => (.error e, b)
      | .ok device => (.ok (), { b with device := some device, stage := .ready }) := by
  simp only [init, outcome_get_bind]
  rw [h, resolve_text, ← h]
  cases Device.resolve b.host b.requested false with
  | error e => rw [outcome_of_error_bind]
  | ok device => rw [outcome_of_ok_bind, outcome_set]

theorem inStep_init (h : Twins host d g) : InStep host init d g := by
  have hd := outcome_init_of_text h.requested.1
  have hg := outcome_init_of_text h.requested.2
  rw [h.hosts.1] at hd
  rw [h.hosts.2] at hg
  cases hdevice : Device.resolve host (.text "cpu") false with
  | error e =>
      rw [hdevice] at hd hg
      exact .of_outcome hd hg (.error rfl) h
  | ok device =>
      rw [hdevice] at hd hg
      refine .of_outcome hd hg (.ok ()) ⟨⟨rfl, rfl⟩, h.requested, rfl, h.size, h.batch, ?_⟩
      exact h.paired.withStage fun _ => (by decide : Stage.ready < Stage.compiled)

/-!
## Preparing a network
-/

section Prepare

variable {size : Value} {weights biases : Operand α} {batch : Except Fault Number}
variable {activations : Except Fault (Option (List Value))}

theorem outcome_prepare_of_refused {e : Fault} {b : Backend α}
    (hcheck : checkNetwork b.host.memory size weights biases batch activations = .error e)
    (hready : ¬b.stage < .ready) :
    (prepare size weights biases batch activations).outcome b = (.error e, b) := by
  rw [prepare, outcome_bind, outcome_require, if_neg hready]
  simp only [outcome_get_bind, hcheck, outcome_of_error_bind]

theorem allocate_fp32 (size rows : Nat) (weights biases : Array α) (codes : List Activation) :
    (Arena.allocate .fp32 size rows weights biases codes).weights = weights ∧
      (Arena.allocate .fp32 size rows weights biases codes).biases = biases := by
  have hstore : (Scalar.store .fp32 : α → α) = id := rfl
  simp only [Arena.allocate, hstore, Array.map_id, and_self]

theorem Paired.machines {size : Nat} {batch : Number} {stage : Stage} {m m' : Machine α}
    (h : Paired size batch stage m m') :
    ∃ settings held claims built, m = .dense settings held ∧ m' = .graph claims built ∧
      settings.basePrecision = .fp32 := by
  cases h with
  | empty precision => exact ⟨_, _, _, _, rfl, rfl, precision⟩
  | network precision => exact ⟨_, _, _, _, rfl, rfl, precision⟩

/-- Machines that have loaded the same network are paired. -/
theorem paired_loaded {n : Network α} {rows : Nat} {settings : TrainingSettings} {claims : Bool}
    (hshaped : Shaped n) (hbatch : n.batch = .whole rows)
    (hrows : rows ≤ Machine.maxRows) (hprecision : settings.basePrecision = .fp32) :
    Paired n.size n.batch .compiled
      (.dense settings (.network
        (Arena.allocate .fp32 n.size rows n.weights n.biases n.codes)))
      (.graph claims (some (OpGraph.build n.size n.weights n.biases n.codes))) := by
  rcases allocate_fp32 n.size rows n.weights n.biases n.codes with ⟨hweights, hbiases⟩
  exact .network hprecision hbatch hrows hweights hbiases rfl hshaped.weights hshaped.biases
    hshaped.codes

theorem inStep_prepare (h : Twins host d g)
    (hroom : (Call.prepare size weights biases batch activations).HasRoom host.memory) :
    InStep host (prepare size weights biases batch activations) d g := by
  refine inStep_of_stage h fun hearly hearly' => ?_
  show InStep host (prepare size weights biases batch activations) d g
  cases hcheck : checkNetwork host.memory size weights biases batch activations with
  | error e =>
      have hd := outcome_prepare_of_refused (b := d) (by rw [h.hosts.1, hcheck]) hearly
      have hg := outcome_prepare_of_refused (b := g) (by rw [h.hosts.2, hcheck]) hearly'
      exact .of_outcome hd hg (.error rfl) h
  | ok n =>
      rcases hroom n hcheck with ⟨rows, hbatch, hrows⟩
      rcases h.paired.machines with ⟨settings, held, claims, built, hd, hg, hprecision⟩
      have hload : d.machine.unload.load d.host.memory n = .ok (.dense settings (.network
          (Arena.allocate .fp32 n.size rows n.weights n.biases n.codes))) := by
        rw [hd, h.hosts.1, ← hprecision]
        exact load_dense_of_hasRoom hbatch hrows settings
      have hbuild : g.machine.unload.load g.host.memory n =
          .ok (.graph claims (some (OpGraph.build n.size n.weights n.biases n.codes))) := by
        rw [hg]
        rfl
      have hd := outcome_prepare_of_load (by rw [h.hosts.1, hcheck]) hearly hload
      have hg := outcome_prepare_of_load (by rw [h.hosts.2, hcheck]) hearly' hbuild
      exact .of_outcome hd hg (.ok ())
        ⟨h.hosts, h.requested, rfl, rfl, rfl,
          paired_loaded (shaped_of_checkNetwork hcheck) hbatch (le_maxRows_of_hasRoom hrows)
            hprecision⟩

end Prepare

/-!
## Running a network
-/

theorem outcome_forward_graph {xs : Array α} {b : Backend α} {claims : Bool} {built : OpGraph α}
    {rows : Nat} (hlate : ¬b.stage < .compiled) (hfits : b.fits xs = true)
    (hmachine : b.machine = .graph claims (some built)) (hrows : b.givenBatch.rows = .ok rows) :
    (forward (.ok xs)).outcome b = (.ok (built.run rows xs), b) := by
  rw [forward, outcome_bind, outcome_require, if_neg hlate]
  simp only [outcome_of_ok_bind, outcome_get_bind, hfits, hmachine, hrows]
  rfl

theorem inStep_forward (hlinear : ∀ x : α, Scalar.activate .linear x = x) (h : Twins host d g)
    (inputs : Operand α) : InStep host (forward inputs) d g := by
  refine inStep_of_stage h fun hlate hlate' => ?_
  show InStep host (forward inputs) d g
  have hfits : ∀ xs, g.fits xs = d.fits xs := by
    intro xs
    simp only [fits, cells, h.size, h.batch]
  cases inputs with
  | error e =>
      exact .of_outcome (outcome_forward_of_refused hlate) (outcome_forward_of_refused hlate')
        (.error rfl) h
  | ok xs =>
      cases hxs : d.fits xs with
      | false =>
          exact .of_outcome (outcome_forward_of_misfit hlate hxs)
            (outcome_forward_of_misfit hlate' ((hfits xs).trans hxs)) (.error rfl) h
      | true =>
          have hpaired := h.paired
          generalize hd : d.machine = m at hpaired
          generalize hg : g.machine = m' at hpaired
          cases hpaired with
          | empty _ early => exact absurd early hlate
          | @network settings claims a codes _ _ rows precision batch hle weights biases hcodes
              cells slots length =>
              subst weights biases
              have hrows : g.givenBatch.rows = .ok rows := by
                rw [← h.batch, batch]
                exact givenRows_whole hle
              have hbatch : d.batch = rows := by
                rw [Backend.batch, batch, Number.count_whole, Int.toNat_natCast]
              refine .of_outcome (outcome_forward_dense hlate hxs hd)
                (outcome_forward_graph hlate' ((hfits xs).trans hxs) hg hrows) ?_ ?_
              · rw [hbatch, OpGraph.run_build hlinear slots hcodes length rows xs]
                exact .ok _
              · refine ⟨h.hosts, h.requested, h.stage, h.size, h.batch, ?_⟩
                rw [hg]
                exact .network precision batch hle rfl rfl hcodes cells slots length

theorem inStep_readParameters (h : Twins host d g) : InStep host readParameters d g := by
  refine inStep_of_stage h fun hlate hlate' => ?_
  show InStep host readParameters d g
  have hpaired := h.paired
  generalize hd : d.machine = m at hpaired
  generalize hg : g.machine = m' at hpaired
  cases hpaired with
  | empty _ early => exact absurd early hlate
  | @network settings claims a codes _ _ rows _ _ _ weights biases _ cells =>
      subst weights biases
      have hdense : (readParameters : Attempt (Backend α) (Array α × Array α)).outcome d =
          (.ok (a.weights, a.biases), d) := by
        rw [readParameters, outcome_bind, outcome_require, if_neg hlate]
        simp only [outcome_get_bind, hd]
        rfl
      have hgraph : (readParameters : Attempt (Backend α) (Array α × Array α)).outcome g =
          (.ok (a.weights, a.biases), g) := by
        rw [readParameters, outcome_bind, outcome_require, if_neg hlate']
        simp only [outcome_get_bind, hg, OpGraph.weights_build a.biases codes cells]
        rfl
      exact .of_outcome hdense hgraph (.ok _) h

theorem Twins.release (h : Twins host d g) : Twins host d.release g.release where
  hosts := h.hosts
  requested := h.requested
  stage := by
    show (if Stage.ready < d.stage then Stage.ready else d.stage) = _
    rw [h.stage]
    rfl
  size := h.size
  batch := h.batch
  paired := by
    rcases h.paired.machines with ⟨settings, held, claims, built, hd, hg, hprecision⟩
    have hearly : d.release.stage < .compiled := by
      show (if Stage.ready < d.stage then Stage.ready else d.stage) < .compiled
      split
      · exact (by decide : Stage.ready < Stage.compiled)
      · next hready => exact Nat.lt_succ_of_le (Nat.not_lt.mp hready)
    have hdense : d.release.machine = .dense settings .nothing := by
      rw [Backend.release, hd]
      rfl
    have hgraph : g.release.machine = .graph claims none := by
      rw [Backend.release, hg]
      rfl
    rw [hdense, hgraph]
    exact .empty hprecision hearly

/-!
## Runs
-/

theorem inStep_perform (hlinear : ∀ x : α, Scalar.activate .linear x = x) (h : Twins host d g)
    {call : Call α} (hroom : call.HasRoom host.memory) : InStep host call.perform d g := by
  cases call with
  | init => exact (inStep_init h).bind fun _ _ _ ht => .pure _ ht
  | prepare size weights biases batch activations =>
      exact (inStep_prepare h hroom).bind fun _ _ _ ht => .pure _ ht
  | forward inputs => exact (inStep_forward hlinear h inputs).bind fun _ _ _ ht => .pure _ ht
  | readParameters => exact (inStep_readParameters h).bind fun _ _ _ ht => .pure _ ht
  | release =>
      have hmodify : InStep host (modify Backend.release : Attempt (Backend α) PUnit) d g :=
        .of_outcome (outcome_modify _ d) (outcome_modify _ g) (.ok _) h.release
      exact hmodify.bind fun _ _ _ ht => .pure _ ht

theorem Twins.trace (hlinear : ∀ x : α, Scalar.activate .linear x = x) {calls : List (Call α)}
    (hroom : ∀ call ∈ calls, call.HasRoom host.memory) (h : Twins host d g) :
    List.Forall₂ Alike (Backend.trace calls d) (Backend.trace calls g) := by
  induction calls generalizing d g with
  | nil => exact .nil
  | cons call rest ih =>
      have hstep := inStep_perform hlinear h (hroom call List.mem_cons_self)
      have hrest := ih (fun c hc => hroom c (List.mem_cons_of_mem call hc)) hstep.twins
      refine .cons ⟨hstep.result, hstep.twins.stage, hstep.twins.size, hstep.twins.batch⟩ hrest

/--
Whatever calls a dense backend in single precision and a graph backend are given, after each of
them both are in the same stage with a network of the same size, and gave the same answer or
failed in the same way.
-/
theorem inference_interchangeable (hlinear : ∀ x : α, Scalar.activate .linear x = x)
    (host : Host) {settings : TrainingSettings} (hprecision : settings.basePrecision = .fp32)
    {calls : List (Call α)} (hroom : ∀ call ∈ calls, call.HasRoom host.memory) :
    List.Forall₂ Alike (trace calls (dense host (.text "cpu") settings))
      (trace calls (graph host (.text "cpu") false)) :=
  (twins_new host hprecision).trace hlinear hroom

/-- A network of one slot is prepared, run on two rows, read, dropped and asked for again. -/
def session : List (Call Float32) :=
  [.readParameters, .init,
   .prepare (.int 1) (.ok #[0.5]) (.ok #[1.0]) (.ok (.whole 2)) (.ok (some [.text "relu"])),
   .forward (.ok #[1.0]), .forward (.ok #[1.0, -4.0]), .readParameters, .release, .readParameters]

theorem inference_interchangeable_session :
    List.Forall₂ Alike (trace session (dense {} (.text "cpu") .default))
      (trace session (graph {} (.text "cpu") false)) := by
  have hlinear : ∀ x : Float32, Scalar.activate .linear x = x := fun _ => rfl
  have hroom : ∀ call ∈ session, call.HasRoom (Host.memory {}) := by
    intro call hcall
    simp only [session, List.mem_cons, List.not_mem_nil, or_false] at hcall
    rcases hcall with rfl | rfl | rfl | rfl | rfl | rfl | rfl | rfl
    case inr.inr.inl =>
      intro n hn
      have hn' : checkNetwork _ (.int (1 : Nat)) _ _ _ _ = .ok n := hn
      rcases checkNetwork_eq_ok hn' with ⟨codes, -, rfl⟩
      exact ⟨2, rfl, (by decide : Machine.hasRoom (Host.memory {}) 1 2 = true)⟩
    all_goals exact trivial
  exact inference_interchangeable hlinear {} rfl hroom

/-- A network without slots for more rows than an arena can be allocated for. -/
def overfull : List (Call Float32) :=
  [.init, .prepare (.int 0) (.ok #[]) (.ok #[]) (.ok (.whole (2 ^ 31))) (.ok (some []))]

/-- A graph backend takes over a network that a dense backend has no room for. -/
theorem inference_differs_overfull :
    TrainingSettings.default.basePrecision = .fp32 ∧
      ¬List.Forall₂ Alike (trace overfull (dense {} (.text "cpu") .default))
        (trace overfull (graph {} (.text "cpu") false)) := by
  refine ⟨rfl, fun h => ?_⟩
  cases h with
  | cons _ hrest =>
      cases hrest with
      | cons hprepare _ =>
          exact absurd hprepare.stage (by decide +kernel)

end Backend
end Plexus
