import Plexus.Proofs.Attempt
import Plexus.Store.Basic

/-!
# Faults of entries and stores

An entry that cannot be made, kept or read back is refused for what it is.  Nothing about it has
to do with whether an engine or a backend is ready.
-/

namespace Plexus

open Attempt

theorem Value.toFloat_avoids_notReady (v : Value) : Avoids .notReady v.toFloat := by
  cases v with
  | real x => exact avoids_ok x
  | nan mark => exact avoids_ok _
  | flag b => exact avoids_ok _
  | int n =>
      rw [Value.toFloat]
      split
      · exact avoids_ok _
      · exact avoids_error (by decide)
  | text s =>
      rw [Value.toFloat]
      split
      · exact avoids_ok _
      · exact avoids_error (by decide)
  | null | list | object => exact avoids_error (by decide)

theorem Value.columnText_avoids_notReady (v : Value) : Avoids .notReady v.columnText := by
  cases v with
  | null => exact avoids_ok _
  | nan mark => exact avoids_ok _
  | flag b => exact avoids_ok _
  | real x => exact avoids_ok _
  | text s =>
      rw [Value.columnText]
      split
      · exact avoids_error (by decide)
      · exact avoids_ok _
  | int n =>
      rw [Value.columnText]
      split
      · exact avoids_ok _
      · exact avoids_error (by decide)
  | list | object => exact avoids_error (by decide)

theorem Neuron.make_avoids_notReady (id kind bias activation : Value) :
    Avoids .notReady (Neuron.make id kind bias activation) := by
  have hkind : Avoids .notReady (Kind.ofValue kind) := by
    rw [Kind.ofValue.eq_def]
    split
    · split
      · exact avoids_ok _
      · exact avoids_error (by simp [Fault.family])
    · exact avoids_error (by simp [Fault.family])
  refine hkind.bind fun k => (bias.toFloat_avoids_notReady).bind fun x => ?_
  split
  · split
    · exact avoids_ok _
    · exact avoids_error (by simp [Fault.family])
  · exact avoids_error (by simp [Fault.family])

theorem Synapse.make_avoids_notReady (id source target weight : Value) :
    Avoids .notReady (Synapse.make id source target weight) :=
  (weight.toFloat_avoids_notReady).bind fun _ => avoids_ok _

theorem Neuron.revised_avoids_notReady (n : Neuron) : Avoids .notReady (NeuronRow.revised n) :=
  (n.activation.columnText_avoids_notReady).bind fun _ =>
    (n.id.columnText_avoids_notReady).bind fun _ => avoids_ok _

theorem Synapse.revised_avoids_notReady (s : Synapse) :
    Avoids .notReady (SynapseRow.revised s) :=
  (s.source.columnText_avoids_notReady).bind fun _ =>
    (s.target.columnText_avoids_notReady).bind fun _ =>
      (s.id.columnText_avoids_notReady).bind fun _ => avoids_ok _

namespace Store

variable {ε : Type} [Tabular ε]

/-- Listing a store fails only where a row cannot be read back. -/
theorem getAll_avoids_notReady (h : ∀ row : Tabular.Row ε, Avoids .notReady (Tabular.decode row))
    (s : Store ε) : Avoids .notReady s.getAll := by
  cases s with
  | keyed s => exact avoids_ok _
  | plain s => exact avoids_ok _
  | table s => exact avoids_mapM h s.rows

theorem updated_avoids_notReady (h : ∀ e : ε, Avoids .notReady (Tabular.revise e)) (e : ε)
    (s : Store ε) : Avoids .notReady (s.updated e) := by
  cases s with
  | plain s => exact avoids_ok _
  | keyed s =>
      refine Avoids.map ?_ _
      rw [KeyedStore.update]
      split
      · exact avoids_error (by decide)
      · exact avoids_ok _
  | table s =>
      refine Avoids.map ((h e).bind fun row => ?_) _
      split
      · split
        · exact avoids_error (by simp [Fault.family])
        · exact avoids_ok _
      · exact avoids_ok _

/-- Replacing an entry fails only where the entry cannot be kept. -/
theorem update_spares_notReady (h : ∀ e : ε, Avoids .notReady (Tabular.revise e)) (e : ε) :
    Spares .notReady (update e) := by
  refine spares_get_bind fun s => ?_
  exact ((spares_of (updated_avoids_notReady h e s)).bind fun t => fun _ => avoids_ok _) s

end Store
end Plexus
