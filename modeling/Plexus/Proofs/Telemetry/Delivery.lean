import Plexus.Proofs.Attempt
import Plexus.Telemetry.Audience

/-!
# Who gets an event

An event goes to the subscribers that are on the channel when it is emitted, one after the other,
up to the first that fails.  What subscribers do is any step on any state that holds the channel:
they may change the channel, emit further events, or fail.  The calls are noted down beside the
state, where the subscribers cannot reach them.
-/

namespace Plexus

open Attempt

namespace Channel

variable {κ σ : Type}

/-- Emits the event of a kind and a number that are given as values. -/
def emitValues (channel : σ → Channel κ) (react : κ → Event → Attempt σ Unit)
    (kind value : Value) : Attempt σ Unit := do
  let e ← Attempt.of (Event.ofValues kind value)
  emit channel react e

/-- What a subscriber does, after it has been noted down that it is called. -/
def noted (react : κ → Event → Attempt σ Unit) (k : κ) (e : Event) :
    Attempt (σ × List κ) Unit := do
  modify fun s => (s.1, s.2 ++ [k])
  onPart Prod.fst (fun t s => (t, s.2)) (react k e)

/--
Subscribers that are called with an event one after the other, each from the state that the one
before it has left.  Only the last of them may fail.
-/
inductive Calls (react : κ → Event → Attempt σ Unit) (e : Event) :
    σ → List κ → Except Fault Unit → σ → Prop where
  | none {s : σ} : Calls react e s [] (.ok ()) s
  | fails {s t : σ} {k : κ} {f : Fault} :
      (react k e).outcome s = (.error f, t) → Calls react e s [k] (.error f) t
  | returns {s t u : σ} {k : κ} {ks : List κ} {r : Except Fault Unit} :
      (react k e).outcome s = (.ok (), t) → Calls react e t ks r u → Calls react e s (k :: ks) r u

variable {channel : σ → Channel κ} {react : κ → Event → Attempt σ Unit} {e : Event} {s : σ}

theorem outcome_emit : (emit channel react e).outcome s =
    (deliver react e (channel s).subscribers).outcome s := by
  rw [emit, outcome_get_bind]

theorem outcome_noted (k : κ) (s : σ × List κ) :
    (noted react k e).outcome s =
      (((react k e).outcome s.1).1, ((react k e).outcome s.1).2, s.2 ++ [k]) := by
  rw [noted, outcome_modify_bind, outcome_onPart]

/-- A delivery calls the first of the subscribers, and fails as soon as one of them does. -/
theorem deliver_calls (ks : List κ) (s : σ) :
    ∃ called rest r t, ks = called ++ rest ∧ (r = .ok () → rest = []) ∧
      Calls react e s called r t ∧ (deliver react e ks).outcome s = (r, t) := by
  induction ks generalizing s with
  | nil => exact ⟨[], [], .ok (), s, rfl, fun _ => rfl, .none, rfl⟩
  | cons k rest ih =>
      cases hrun : (react k e).outcome s with
      | mk r t =>
          cases r with
          | error f =>
              refine ⟨[k], rest, .error f, t, rfl, ?_, .fails hrun, outcome_bind_of_error hrun _⟩
              intro h
              cases h
          | ok _ =>
              rcases ih t with ⟨called, missed, r, u, hsplit, hall, hcalls, hdeliver⟩
              refine ⟨k :: called, missed, r, u, ?_, hall, .returns hrun hcalls, ?_⟩
              · rw [hsplit, List.cons_append]
              · rw [deliver, outcome_bind_of_ok hrun]
                exact hdeliver

/-- The notes of a delivery are the subscribers that it calls. -/
theorem Calls.deliver_noted {called rest : List κ} {r : Except Fault Unit} {t : σ}
    (h : Calls react e s called r t) (hall : r = .ok () → rest = []) (notes : List κ) :
    (deliver (noted react) e (called ++ rest)).outcome (s, notes) = (r, t, notes ++ called) := by
  induction h generalizing notes with
  | none =>
      rw [hall rfl, List.append_nil, List.append_nil]
      rfl
  | @fails s t k f hrun =>
      have hnoted : (noted react k e).outcome (s, notes) = (.error f, t, notes ++ [k]) := by
        rw [outcome_noted, hrun]
      rw [List.singleton_append, deliver, outcome_bind_of_error hnoted]
  | @returns s t u k ks r hrun _ ih =>
      have hnoted : (noted react k e).outcome (s, notes) = (.ok (), t, notes ++ [k]) := by
        rw [outcome_noted, hrun]
      rw [List.cons_append, deliver, outcome_bind_of_ok hnoted, ih hall, List.append_assoc]
      rfl

/-- What every subscriber respects, an emission respects. -/
theorem respects_emit {R : σ → σ → Prop} [IsPreorder σ R] (h : ∀ k, Respects R (react k e)) :
    Respects R (emit channel react e) := by
  refine respects_get_bind fun s => ?_
  have hdeliver : ∀ ks : List κ, Respects R (deliver react e ks) := by
    intro ks
    induction ks with
    | nil => exact respects_pure ()
    | cons k rest ih => exact (h k).bind fun _ => ih
  exact hdeliver _ s

/-- Subscribers that do the same in all states that they can come to are delivered to alike. -/
theorem outcome_emit_congr {I : σ → Prop} {react' : κ → Event → Attempt σ Unit}
    (hkept : ∀ k, Respects (Kept I) (react k e))
    (hsame : ∀ k t, I t → (react k e).outcome t = (react' k e).outcome t) (hs : I s) :
    (emit channel react e).outcome s = (emit channel react' e).outcome s := by
  rw [outcome_emit, outcome_emit]
  generalize (channel s).subscribers = ks
  induction ks generalizing s with
  | nil => rfl
  | cons k rest ih =>
      have hk := hkept k s hs
      rw [deliver, deliver, outcome_bind, outcome_bind, ← hsame k s hs]
      cases hrun : (react k e).outcome s with
      | mk r t =>
          rw [after_of_outcome hrun] at hk
          cases r with
          | error f => rfl
          | ok _ => exact ih hk

end Channel

/-!
## Audiences

A subscriber of an audience may emit an event of its own, once.  The bound on how many events lie
inside one another is never reached, so an audience emits like any other channel.
-/

namespace Audience

/-- The subscribers that may still emit an event of their own. -/
def unspoken (a : Audience) : List (String × Behaviour) :=
  a.known.filter fun p => p.2 == .emit && !a.spoken.contains p.1

/-- At most so many subscribers may still emit an event. -/
def Quieter (n : Nat) (a : Audience) : Prop := a.unspoken.length ≤ n

theorem unspoken_introduce_log (name : String) (a : Audience) :
    (a.introduce name .log).unspoken = a.unspoken := by
  rw [unspoken, introduce]
  dsimp only
  split
  · rfl
  · rw [List.filter_append]
    exact List.append_nil _

theorem mem_of_lookup {known : List (String × Behaviour)} {name : String} {b : Behaviour}
    (h : known.lookup name = some b) : (name, b) ∈ known := by
  induction known with
  | nil => cases h
  | cons p rest ih =>
      rw [List.lookup_cons] at h
      split at h
      · next hname =>
        cases h
        rw [eq_of_beq hname]
        exact List.mem_cons_self
      · exact List.mem_cons_of_mem p (ih h)

theorem unspoken_speak (a : Audience) (name : String) :
    ({ a with spoken := a.spoken ++ [name] } : Audience).unspoken =
      a.unspoken.filter fun p => p.1 != name := by
  rw [unspoken, unspoken, List.filter_filter]
  refine List.filter_congr fun p _ => ?_
  rw [List.contains_append, List.contains_cons, List.contains_nil, Bool.or_false, Bool.not_or]
  show (p.2 == .emit && (!a.spoken.contains p.1 && p.1 != name)) = _
  rw [← Bool.and_assoc, Bool.and_comm]

/-- A subscriber that emits an event may not do so again. -/
theorem length_unspoken_speak_lt {a : Audience} {name : String}
    (hemits : a.behaviour name = .emit) (hspoken : a.spoken.contains name = false) :
    ({ a with spoken := a.spoken ++ [name] } : Audience).unspoken.length < a.unspoken.length := by
  have hknown : (name, Behaviour.emit) ∈ a.known := by
    apply mem_of_lookup
    rw [behaviour] at hemits
    cases hlookup : a.known.lookup name with
    | none =>
        rw [hlookup] at hemits
        cases hemits
    | some b =>
        rw [hlookup] at hemits
        exact congrArg some hemits
  rw [unspoken_speak, List.length_filter_lt_length_iff_exists]
  refine ⟨(name, .emit), List.mem_filter.mpr ⟨hknown, ?_⟩, ?_⟩
  · rw [hspoken]
    rfl
  · simp

variable {emitOn emitOn' : Event → Attempt Audience Unit} {n : Nat}

theorem Quieter.introduce_log {a : Audience} (h : Quieter n a) (name : String) :
    Quieter n (a.introduce name .log) := by
  rw [Quieter, unspoken_introduce_log]
  exact h

theorem quieter_unsubscribe (name : String) :
    Respects (Kept (Quieter n)) (unsubscribe name) := by
  refine respects_get_bind fun a => ?_
  split
  · exact fun ha => ha.introduce_log name
  · exact fun ha => ha

/-- Whatever a subscriber does, no more of them may emit an event than before. -/
theorem quieter_react (h : ∀ e, Respects (Kept (Quieter n)) (emitOn e)) (name : String)
    (e : Event) : Respects (Kept (Quieter n)) (react emitOn name e) := by
  refine (respects_modify fun a ha => ha).bind fun _ => respects_get_bind fun a => ?_
  cases a.behaviour name with
  | log => exact respects_pure () a
  | raise => exact respects_throw _ a
  | leave => exact quieter_unsubscribe name a
  | drop other => exact quieter_unsubscribe other a
  | add other => exact fun ha => ha.introduce_log other
  | clear => exact fun ha => ha
  | emit =>
      refine respects_get_bind (fun b => ?_) a
      split
      · exact fun hb => hb
      · refine (respects_modify fun c hc => ?_).bind (fun _ => h _) b
        rw [Quieter, unspoken_speak]
        exact Nat.le_trans (List.length_filter_le _ _) hc

theorem quieter_emitWithin (depth : Nat) (e : Event) :
    Respects (Kept (Quieter n)) (emitWithin depth e) := by
  induction depth generalizing e with
  | zero => exact respects_pure ()
  | succ depth ih => exact Channel.respects_emit fun name => quieter_react ih name e

/-- Only the events inside an event see how further events are emitted. -/
theorem outcome_react_congr {a : Audience} {name : String} {e : Event} (ha : Quieter n a)
    (h : ∀ b e, b.unspoken.length < n → (emitOn e).outcome b = (emitOn' e).outcome b) :
    (react emitOn name e).outcome a = (react emitOn' name e).outcome a := by
  rw [react, react, outcome_modify_bind, outcome_modify_bind, outcome_get_bind, outcome_get_bind]
  generalize hb : ({ a with heard := a.heard ++ [(name, e)] } : Audience) = b
  have hquiet : Quieter n b := hb ▸ ha
  cases hbehaviour : b.behaviour name with
  | log | raise | leave | drop | add | clear => rfl
  | emit =>
      dsimp only
      rw [outcome_get_bind, outcome_get_bind]
      cases hspoken : b.spoken.contains name with
      | true => rfl
      | false =>
          rw [if_neg Bool.false_ne_true, if_neg Bool.false_ne_true, outcome_modify_bind,
            outcome_modify_bind]
          exact h _ _ (Nat.lt_of_lt_of_le (length_unspoken_speak_lt hbehaviour hspoken) hquiet)

/-- More room for events inside one another than there are subscribers changes nothing. -/
theorem outcome_emitWithin_succ {depth : Nat} {a : Audience} (h : a.unspoken.length < depth)
    (e : Event) : (emitWithin depth e).outcome a = (emitWithin (depth + 1) e).outcome a := by
  induction depth generalizing a e with
  | zero => cases h
  | succ depth ih =>
      exact Channel.outcome_emit_congr (I := Quieter depth)
        (fun name => quieter_react (quieter_emitWithin depth) name e)
        (fun name b hb => outcome_react_congr hb fun c e hc => ih hc e) (Nat.le_of_lt_succ h)

theorem outcome_emitWithin_of_lt {depth extra : Nat} {a : Audience}
    (h : a.unspoken.length < depth) (e : Event) :
    (emitWithin depth e).outcome a = (emitWithin (depth + extra) e).outcome a := by
  induction extra with
  | zero => rfl
  | succ extra ih => exact ih.trans (outcome_emitWithin_succ (Nat.lt_add_right extra h) e)

theorem length_unspoken_le (a : Audience) : a.unspoken.length ≤ a.known.length :=
  List.length_filter_le _ _

theorem outcome_emit (e : Event) (a : Audience) :
    (emit e).outcome a = (emitWithin (a.known.length + 1) e).outcome a := by
  rw [emit, outcome_get_bind]

/-- An audience emits like a channel on which events are emitted without any bound. -/
theorem outcome_emit_eq (e : Event) (a : Audience) :
    (emit e).outcome a = (Channel.emit Audience.channel (react emit) e).outcome a := by
  rw [outcome_emit]
  refine Channel.outcome_emit_congr (I := Quieter a.known.length)
    (fun name => quieter_react (quieter_emitWithin a.known.length) name e)
    (fun name b hb => outcome_react_congr hb fun c e hc => ?_) (length_unspoken_le a)
  have hroom : c.unspoken.length < c.known.length + 1 := Nat.lt_succ_of_le (length_unspoken_le c)
  calc (emitWithin a.known.length e).outcome c
      = (emitWithin (a.known.length + (c.known.length + 1)) e).outcome c :=
        outcome_emitWithin_of_lt hc e
    _ = (emitWithin (c.known.length + 1 + a.known.length) e).outcome c := by rw [Nat.add_comm]
    _ = (emitWithin (c.known.length + 1) e).outcome c := (outcome_emitWithin_of_lt hroom e).symm
    _ = (emit e).outcome c := (outcome_emit e c).symm

theorem outcome_emitValues_eq (kind value : Value) (a : Audience) :
    (emitValues kind value).outcome a =
      (Channel.emitValues Audience.channel (react emit) kind value).outcome a := by
  rw [emitValues, Channel.emitValues, outcome_bind, outcome_bind, outcome_of]
  cases Event.ofValues kind value with
  | error f => rfl
  | ok e => exact outcome_emit_eq e a

end Audience

/--
An event goes to the subscribers that are on the channel when it is emitted, to each once for
every time it is there, in order, up to the first that fails; the state that is left is the one
that the last of them leaves.  An event that is not valid goes to nobody and changes nothing.
Audiences, whose subscribers emit events inside events, emit in this way at every level.
-/
theorem emit_calls_those_present :
    (∀ {κ σ : Type} (channel : σ → Channel κ) (react : κ → Event → Attempt σ Unit)
      (kind value : Value) (s : σ),
      match Event.ofValues kind value with
      | .ok e =>
          ∃ called missed r t, (channel s).subscribers = called ++ missed ∧
            (r = .ok () → missed = []) ∧ Channel.Calls react e s called r t ∧
            (Channel.emitValues channel react kind value).outcome s = (r, t) ∧
            (Channel.emitValues (fun p => channel p.1) (Channel.noted react) kind value).outcome
              (s, []) = (r, t, called)
      | .error f =>
          (Channel.emitValues channel react kind value).outcome s = (.error f, s) ∧
            (Channel.emitValues (fun p => channel p.1) (Channel.noted react) kind value).outcome
              (s, []) = (.error f, s, [])) ∧
    ∀ (kind value : Value) (a : Audience),
      (Audience.emitValues kind value).outcome a =
        (Channel.emitValues Audience.channel (Audience.react Audience.emit) kind value).outcome
          a := by
  refine ⟨fun {κ σ} channel react kind value s => ?_, Audience.outcome_emitValues_eq⟩
  rw [Channel.emitValues, Channel.emitValues]
  cases Event.ofValues kind value with
  | error f => exact ⟨outcome_of_error_bind f _ _, outcome_of_error_bind f _ _⟩
  | ok e =>
      rcases Channel.deliver_calls (channel s).subscribers s with
        ⟨called, missed, r, t, hsplit, hall, hcalls, hdeliver⟩
      refine ⟨called, missed, r, t, hsplit, hall, hcalls, ?_, ?_⟩
      · rw [outcome_of_ok_bind, Channel.outcome_emit]
        exact hdeliver
      · rw [outcome_of_ok_bind, Channel.outcome_emit, hsplit]
        exact hcalls.deliver_noted hall []

end Plexus
